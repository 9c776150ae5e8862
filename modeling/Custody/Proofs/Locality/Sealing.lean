import Custody.Proofs.Draining
import Custody.Proofs.Locality.Fading
import Custody.Proofs.Ownership
import Custody.Proofs.Reclamation
import Custody.Proofs.Writing

/-! Destruction that does not get out. Records are doomed if what is destroyed first, on top of
tasks that wait, can come to them: through the owners in doomed objects, and to an orphan once the
doomed objects had its last handles. As long as the tasks on top are done, they concern doomed
records only, but for handles that go; all other allocations stay, and those that no doomed object
observes do not change at all. -/

namespace Custody

open Stake

/-- Whether the finalizer of an element looks at the node observed. -/
def Item.probes : Item → Bool
  | .node _ f .. => f.probes
  | _ => false

/-- The finalizer of an element reports at most; what the element owns is doomed, and what it
observes is touched. -/
structure Item.Within (D E : RecordId → Prop) (x : Item) : Prop where
  plain : x.probes = false
  owned : ∀ q, x.link = some q → D q
  seen : ∀ k, x.back = some k → E k.record

/-- A task that destroys doomed objects at most, and is about a touched record. -/
def Task.Within (D E : RecordId → Prop) : Task → Prop
  | .dropOwner o => ∀ q, o = some q → D q
  | .dropSoft s => ∀ k, s = some k → E k.record
  | .dropItem x => x.Within D E
  | .retire r => D r
  | .forget r => E r
  | .abandon .. => False

theorem Task.Within.subject {D E : RecordId → Prop} {t : Task} {q : RecordId} (h : t.Within D E)
    (hE : ∀ q, D q → E q) (ht : t.subject = some q) : E q := by
  cases t with
  | dropOwner o => exact hE q (h q ht)
  | dropSoft s =>
    obtain ⟨k, rfl, rfl⟩ := Option.map_eq_some_iff.mp ht
    exact h k rfl
  | dropItem x =>
    obtain ⟨k, hk, rfl⟩ := Option.map_eq_some_iff.mp ht
    exact h.seen k hk
  | retire r =>
    obtain rfl := Option.some.inj ht
    exact hE r h
  | forget r =>
    obtain rfl := Option.some.inj ht
    exact h
  | abandon => cases ht

/-- A task has a handle to a record, or one of those that its record counts. -/
def Task.Refers (t : Task) (q : RecordId) : Prop := ∃ s ∈ ofTask t, s.isHandle = true ∧ s.record = q

namespace World

variable {D E : RecordId → Prop} {t : Task} {ts rest : List Task} {u v w : World} {p q r : RecordId}

/-- The object of a record is there and has lost its owner. -/
def IsOrphan (w : World) (q : RecordId) : Prop := w.isAlive q = false ∧ (w.object? q).isSome = true

/-- An element of one object observes the other. -/
def LooksAt (w : World) (p q : RecordId) : Prop :=
  ∃ items, w.object? p = some items ∧ ∃ x ∈ items, x.back.map Watch.record = some q

/-- A handle to `q` that stays while doomed objects are destroyed: it is in a variable, in a task
that waits, or in an object that is not doomed or is borrowed. -/
inductive Anchored (D : RecordId → Prop) (rest : List Task) (w : World) (q : RecordId) : Prop where
  | inVariable (s : Source) : w.referent s = some q → Anchored D rest w q
  | waiting (t : Task) : t ∈ rest → t.Refers q → Anchored D rest w q
  | stored (p : RecordId) : ¬ D p ∨ w.isBorrowed p = true → w.LooksAt p q → Anchored D rest w q

/-- The tasks `ts`, on top of `rest`, destroy doomed objects at most, now and later, and let go of
no handles but to touched records. -/
structure Sealed (D E : RecordId → Prop) (ts rest : List Task) (w : World) : Prop where
  touched : ∀ q, D q → E q
  pending : w.pending = ts ++ rest
  within : ∀ t ∈ ts, t.Within D E
  owned : ∀ p, D p → w.isBorrowed p = false → ∀ items, w.object? p = some items →
    ∀ x ∈ items, x.Within D E
  anchored : ∀ q, ¬ D q → w.IsOrphan q → w.Anchored D rest q

theorem Anchored.exists_stake (h : w.Anchored D rest q) (hp : w.pending = ts ++ rest) :
    ∃ s ∈ w.stakes, s.isHandle = true ∧ s.record = q := by
  cases h with
  | inVariable s hs =>
    cases s with
    | owner i =>
      have howned := mem_allOwners.mp (mem_allOwners_of_owner hs)
      exact ⟨.owns q, owns_mem_stakes.mpr howned, rfl, rfl⟩
    | soft p =>
      obtain ⟨k, hk, rfl⟩ := Option.map_eq_some_iff.mp hs
      exact ⟨.watches k, watches_mem_stakes.mpr (.inl ⟨p, soft?_of_soft hk⟩), rfl, rfl⟩
  | waiting t ht hrefers =>
    obtain ⟨s, hs, hq⟩ := hrefers
    refine ⟨s, Multiset.mem_add.mpr (.inr (mem_tally.mpr ⟨t, ?_, hs⟩)), hq⟩
    rw [hp]
    exact List.mem_append_right ts ht
  | stored p _ hobs =>
    obtain ⟨items, ho, x, hx, hb⟩ := hobs
    obtain ⟨k, hk, rfl⟩ := Option.map_eq_some_iff.mp hb
    obtain ⟨rec, hrec, hobj⟩ := Option.bind_eq_some_iff.mp ho
    exact ⟨.watches k, watches_mem_stakes.mpr (.inr (.inl
      ⟨x, .inl ⟨rec, Array.mem_of_getElem? hrec, items, hobj, hx⟩, hk⟩)), rfl, rfl⟩

/-! ### One task -/

theorem records_dropItem {x : Item} (hx : x.probes = false) :
    (w.dropItem x).records = w.records := by
  cases x with
  | node value f next prev =>
    have hf : f.probes = false := hx
    show (w.finalize value f prev).records = w.records
    rw [finalize_eq, hf]
    cases f.panics
    · rfl
    · exact records_raise _
  | unit | int | byte | bucket | entry => rfl

theorem pending_dropItem {x : Item} (hx : x.Within D E) :
    ∃ ts, (w.dropItem x).pending = ts ++ w.pending ∧ ∀ t ∈ ts, t.Within D E := by
  have hlink (hl : (w.dropItem x).pending = [Task.dropOwner x.link] ++ w.pending) :
      ∃ ts, (w.dropItem x).pending = ts ++ w.pending ∧ ∀ t ∈ ts, t.Within D E :=
    ⟨_, hl, fun t ht => by
      obtain rfl := List.mem_singleton.mp ht
      exact hx.owned⟩
  cases x with
  | node value f next prev =>
    refine ⟨[.dropOwner next, .dropSoft prev], ?_, fun t ht => ?_⟩
    · simp only [dropItem, schedule, (keeps_finalize value f prev).pending]
    · obtain rfl | rfl := by simpa using ht
      · exact hx.owned
      · exact hx.seen
  | bucket | entry => exact hlink rfl
  | unit | int | byte => exact ⟨[], rfl, by simp⟩

/-- What a doomed object is destroyed into. -/
theorem Sealed.pending_demolish (hs : w.Sealed D E ts rest) (hr : D r) (hb : w.isBorrowed r = false)
    (ho : u.object? r = w.object? r) :
    ∃ new, (u.demolish r).pending = new ++ u.pending ∧ ∀ t ∈ new, t.Within D E := by
  refine ⟨_, World.pending_demolish r, fun t ht => ?_⟩
  rw [ho] at ht
  cases hitems : w.object? r with
  | none => simp [hitems] at ht
  | some items =>
    rw [hitems] at ht
    obtain ht | ht := List.mem_append.mp ht
    · obtain ⟨x, hx, rfl⟩ := List.mem_map.mp ht
      exact hs.owned r hr hb items hitems x hx
    · obtain rfl := List.mem_singleton.mp ht
      exact hr

/-- What an owner of a doomed object is destroyed into. -/
theorem Sealed.pending_dropOwner (hs : w.Sealed D E ts rest) (hr : D r)
    (ho : u.object? r = w.object? r) (hb : u.isBorrowed r = w.isBorrowed r) :
    ∃ new, (u.dropOwner (some r)).pending = new ++ u.pending ∧ ∀ t ∈ new, t.Within D E := by
  have htouched : (Task.forget r).Within D E := hs.touched r hr
  cases hheld : (u.schedule [.forget r]).isBorrowed r with
  | true =>
    refine ⟨[.forget r], ?_, by simpa using htouched⟩
    simp only [dropOwner, hheld, if_true]
    exact ((keeps_orphan r).trans (keeps_raise _)).pending
  | false =>
    obtain ⟨new, hnew, hall⟩ := hs.pending_demolish (u := u.schedule [.forget r]) hr (hb ▸ hheld) ho
    refine ⟨new ++ [.forget r], ?_, fun t ht => ?_⟩
    · simp only [dropOwner, hheld, Bool.false_eq_true, if_false, hnew]
      simp [schedule]
    · obtain ht | ht := List.mem_append.mp ht
      · exact hall t ht
      · obtain rfl := List.mem_singleton.mp ht
        exact htouched

/-- What a handle to a doomed object is destroyed into; nothing, if it is not the last one. -/
theorem Sealed.pending_forget (hs : w.Sealed D E ts rest) (hr : D r)
    (hrec : u.records = w.records) :
    ∃ new, (u.forget r).pending = new ++ u.pending ∧ ∀ t ∈ new, t.Within D E := by
  by_cases hlast : (u.modifyRecord r Record.left).records[r]?.any
      (fun rec => rec.handles = 0 && !rec.borrow.isHeld) = true
  · have hb : w.isBorrowed r = false := by
      simp only [modifyRecord, Array.getElem?_modify, hrec] at hlast
      cases hr : w.records[r]? with
      | none => simp [isBorrowed, hr]
      | some rec =>
        simp only [hr, if_true, Option.map_some, Option.any_some, Bool.and_eq_true] at hlast
        simpa [isBorrowed, hr, Record.left] using hlast.2
    have hobject : (u.modifyRecord r Record.left).object? r = w.object? r := by
      rw [object?_modifyRecord (f := Record.left) (fun _ => rfl) r r, object?, object?, hrec]
    obtain ⟨new, hnew, hall⟩ := hs.pending_demolish hr hb hobject
    exact ⟨new, (congrArg World.pending (if_pos hlast)).trans hnew, hall⟩
  · exact ⟨[], (congrArg World.pending (if_neg hlast)).trans rfl, by simp⟩

/-- A handle that keeps an orphan is there as long as its place keeps it. -/
theorem Anchored.transfer (h : w.Anchored D rest q)
    (hv : ∀ s, w.referent s = some q → v.referent s = some q)
    (hs : ∀ p, ¬ D p ∨ w.isBorrowed p = true → w.LooksAt p q →
      (¬ D p ∨ v.isBorrowed p = true) ∧ v.LooksAt p q) : v.Anchored D rest q := by
  cases h with
  | inVariable s hr => exact .inVariable s (hv s hr)
  | waiting t ht hq => exact .waiting t ht hq
  | stored p hp hlooks =>
    obtain ⟨hp, hlooks⟩ := hs p hp hlooks
    exact .stored p hp hlooks

/-- A handle that goes is not the last one of an object that is there and not doomed. -/
theorem Sealed.tick_forget (h : w.Sound) (hs : w.Sealed D E (.forget q :: ts) rest) (hq : ¬ D q) :
    w.tick = ({ w with pending := ts ++ rest } : World).modifyRecord q Record.left := by
  have hp : w.pending = .forget q :: (ts ++ rest) := hs.pending
  set u : World := { w with pending := ts ++ rest } with hu
  have hstakes : w.stakes = {.leaves q} + u.stakes := stakes_pop hp
  obtain ⟨rec, hr⟩ := h.record_of_mem (s := .leaves q) (r := q) (by simp [hstakes]) rfl
  have hleft : (u.modifyRecord q Record.left).records[q]? = some rec.left := by
    simp [hu, modifyRecord, Array.getElem?_modify, hr]
  have hforget : w.tick =
      if (u.modifyRecord q Record.left).records[q]?.any
        (fun rec => rec.handles = 0 && !rec.borrow.isHeld)
      then (u.modifyRecord q Record.left).demolish q
      else u.modifyRecord q Record.left := by
    rw [tick, hp]
    rfl
  rw [hforget]
  cases ho : rec.object with
  | none =>
    rw [demolish_of_empty (by rw [object?_of_record hleft]; exact ho), ite_self]
  | some items =>
    -- another handle is left: the owner, or the one that keeps an orphan
    obtain ⟨s, hmem, hhandle, hsq⟩ : ∃ s ∈ u.stakes, s.isHandle = true ∧ s.record = q := by
      cases ha : w.isAlive q with
      | true =>
        have howns := (h.owns_iff q).mpr ha
        rw [hstakes] at howns
        exact ⟨.owns q, by simpa using howns, rfl, rfl⟩
      | false =>
        have horphan : w.IsOrphan q := ⟨ha, by rw [object?_of_record hr, ho]; rfl⟩
        have hanchored : u.Anchored D rest q := (hs.anchored q hq horphan).transfer
          (fun _ hr => hr) fun _ hp hlooks => ⟨hp, hlooks⟩
        exact hanchored.exists_stake rfl
    have hpos : 0 < Stake.handles (u.stakesIn q) :=
      Multiset.countP_pos.mpr ⟨s, mem_stakesIn.mpr ⟨hmem, hsq⟩, hhandle⟩
    have hcount := (h.agrees hr).counted
    rw [stakesIn_of_cons hstakes (r := q) rfl, handles_leaves] at hcount
    have hne : rec.handles - 1 ≠ 0 := by omega
    rw [hleft, if_neg (by simp [Record.left, hne])]

theorem Sealed.fades_forget (h : w.Sound) (hs : w.Sealed D E (.forget q :: ts) rest) (hq : ¬ D q) :
    Holding.Fades q (w.holding q) (w.tick.holding q) := by
  have hstakes : w.stakes = {.leaves q} + ({ w with pending := ts ++ rest } : World).stakes :=
    stakes_pop hs.pending
  obtain ⟨rec, hr⟩ := h.record_of_mem (s := .leaves q) (r := q) (by simp [hstakes]) rfl
  have hnew : w.tick.records[q]? = some rec.left := by
    rw [hs.tick_forget h hq]
    simp [modifyRecord, Array.getElem?_modify, hr]
  refine fades_replace (x := {.leaves q}) (y := 0) hr hnew book_tick hstakes ?_
    (by simp [Stake.record]) (by simp) fun c l => by simpa using .leave
  rw [hs.tick_forget h hq, zero_add]
  exact stakes_modifyRecord_of_eq fun _ _ => rfl

theorem Sound.fades_dropSoft {k : Watch} {pending : List Task} (h : w.Sound)
    (hp : w.pending = .dropSoft (some k) :: pending) :
    Holding.Fades k.record (w.holding k.record) (w.tick.holding k.record) := by
  have htick : w.tick = ({ w with pending := pending } : World).perform (.dropSoft (some k)) := by
    rw [tick, hp]
  have hstakes : w.stakes = {.watches k} + ({ w with pending := pending } : World).stakes :=
    stakes_pop hp
  obtain ⟨rec, hr⟩ := h.record_of_mem (s := .watches k) (r := k.record) (by simp [hstakes]) rfl
  have hnew : w.tick.records[k.record]? = some (rec.deregister k.ticket) := by
    rw [htick]
    simp [perform, dropSoft, schedule, modifyRecord, Array.getElem?_modify, hr]
  refine fades_replace (x := {.watches k}) (y := {.leaves k.record}) hr hnew book_tick hstakes ?_
    (by simp [Stake.record]) (by simp [Stake.record]) fun c l => by simpa using .deregister
  rw [htick, perform, dropSoft, stakes_schedule,
    stakes_modifyRecord_of_eq fun rec _ => ofRecord_deregister rec _]
  simp [ofTask]

/-- Of what is not doomed a handle goes at most. -/
theorem Sealed.fades_tick (h : w.Sound) (hs : w.Sealed D E (t :: ts) rest) (hq : ¬ D q) :
    Holding.Fades q (w.holding q) (w.tick.holding q) := by
  have hp : w.pending = t :: (ts ++ rest) := hs.pending
  have hwithin := hs.within t (by simp)
  have htick : w.tick = ({ w with pending := ts ++ rest } : World).perform t := by rw [tick, hp]
  have hkept (hr : w.tick.records[q]? = w.records[q]?) :
      Holding.Fades q (w.holding q) (w.tick.holding q) :=
    (step_tick h q).fades (h.holds q) hr (loans_congr book_tick q)
  have hother (hne : t.subject ≠ some q) : Holding.Fades q (w.holding q) (w.tick.holding q) := by
    refine hkept ?_
    rw [htick]
    exact (confined_perform t).others q hne
  cases t with
  | dropOwner o => exact hother fun ho => hq (hwithin q ho)
  | dropItem x =>
    refine hkept ?_
    rw [htick]
    exact congrArg (·[q]?) (records_dropItem hwithin.plain)
  | retire r =>
    refine hother fun hr => hq ?_
    obtain rfl : r = q := Option.some.inj hr
    exact hwithin
  | abandon => exact hwithin.elim
  | forget r =>
    by_cases hr : r = q
    · subst hr
      exact hs.fades_forget h hq
    · exact hother fun he => hr (Option.some.inj he)
  | dropSoft s =>
    by_cases hk : s.map Watch.record = some q
    · obtain ⟨k, rfl, rfl⟩ := Option.map_eq_some_iff.mp hk
      exact h.fades_dropSoft hp
    · exact hother hk

theorem Sealed.pending_tick (h : w.Sound) (hs : w.Sealed D E (t :: ts) rest) :
    ∃ new, w.tick.pending = new ++ (ts ++ rest) ∧ ∀ t ∈ new, t.Within D E := by
  have hp : w.pending = t :: (ts ++ rest) := hs.pending
  have hwithin := hs.within t (by simp)
  set u : World := { w with pending := ts ++ rest } with hu
  have htick : w.tick = u.perform t := by rw [tick, hp]
  rw [htick]
  cases t with
  | dropOwner o =>
    cases o with
    | none => exact ⟨[], rfl, by simp⟩
    | some r => exact hs.pending_dropOwner (hwithin r rfl) rfl rfl
  | dropSoft s =>
    cases s with
    | none => exact ⟨[], rfl, by simp⟩
    | some k => exact ⟨[.forget k.record], rfl, by simpa [Task.Within] using hwithin k rfl⟩
  | dropItem x => exact pending_dropItem hwithin
  | retire r => exact ⟨[], ((keeps_invalidate r).trans (keeps_returnBlock r)).pending, by simp⟩
  | abandon => exact hwithin.elim
  | forget r =>
    by_cases hr : D r
    · exact hs.pending_forget hr rfl
    · refine ⟨[], ?_, by simp⟩
      rw [← htick, hs.tick_forget h hr]
      rfl

theorem Sound.isBorrowed_tick (h : w.Sound) (p : RecordId) :
    w.tick.isBorrowed p = w.isBorrowed p := by
  have htick : w.tick.Sound := h.run .tick
  rw [Bool.eq_iff_iff, h.isBorrowed_iff, htick.isBorrowed_iff, guards_of_book book_tick]

/-- What is not touched does not change. -/
theorem Sealed.record_tick (hs : w.Sealed D E (t :: ts) rest) (hq : ¬ E q) :
    w.tick.records[q]? = w.records[q]? := by
  have hp : w.pending = t :: (ts ++ rest) := hs.pending
  have htick :
      w.tick = ({ w with pending := ts ++ rest } : World).perform t := by rw [World.tick, hp]
  rw [htick]
  exact (confined_perform t).others q fun ht => hq ((hs.within t (by simp)).subject hs.touched ht)

/-- From `w` to `v` what is not doomed is unharmed, and what is not touched does not change. -/
structure Spared (D E : RecordId → Prop) (w v : World) : Prop where
  unharmed : ∀ q, ¬ D q → w.Unharmed v q
  same : ∀ q, ¬ E q → v.records[q]? = w.records[q]?

theorem Spared.refl (D E : RecordId → Prop) (w : World) : Spared D E w w :=
  ⟨fun q _ => .refl w q, fun _ _ => rfl⟩

theorem Spared.trans (h : Spared D E u v) (k : Spared D E v w) : Spared D E u w :=
  ⟨fun q hq => (h.unharmed q hq).trans (k.unharmed q hq),
    fun q hq => (k.same q hq).trans (h.same q hq)⟩

/-- The tasks stay sealed, and all else is spared. -/
theorem Sealed.tick (h : w.Sound) (hs : w.Sealed D E (t :: ts) rest) :
    (∃ ts, w.tick.Sealed D E ts rest) ∧ Spared D E w w.tick := by
  have hsound : w.tick.Sound := h.run .tick
  have hunharmed (q : RecordId) (hq : ¬ D q) : w.Unharmed w.tick q :=
    unharmed_of_fades hsound (hs.fades_tick h hq)
  refine ⟨?_, hunharmed, fun q => hs.record_tick⟩
  obtain ⟨new, hnew, hall⟩ := hs.pending_tick h
  refine ⟨new ++ ts, ⟨hs.touched, by rw [hnew, List.append_assoc], fun t ht => ?_,
    fun p hp hb items ho => ?_, fun q hq horphan => ?_⟩⟩
  · obtain ht | ht := List.mem_append.mp ht
    · exact hall t ht
    · exact hs.within t (List.mem_cons_of_mem _ ht)
  · rw [h.isBorrowed_tick] at hb
    have hstays : w.tick.object? p = w.object? p := stays_tick.resolve_right (by simp [ho])
    exact hs.owned p hp hb items (hstays ▸ ho)
  · have hsame := hunharmed q hq
    refine (hs.anchored q hq ⟨hsame.isAlive ▸ horphan.1, hsame.object? ▸ horphan.2⟩).transfer
      (fun s hr => by rw [referent_congr hands_tick, hr]) fun p hp hlooks => ?_
    have hobject : w.tick.object? p = w.object? p := by
      obtain hp | hb := hp
      · exact (hunharmed p hp).object?
      · rw [← h.isBorrowed_tick, hsound.isBorrowed_iff] at hb
        exact hsound.object?_of_stays stays_tick hb
    obtain ⟨items, ho, hx⟩ := hlooks
    exact ⟨by rwa [h.isBorrowed_tick], items, hobject.trans ho, hx⟩

end World

end Custody

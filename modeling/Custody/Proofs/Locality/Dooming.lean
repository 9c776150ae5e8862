import Custody.Proofs.Locality.Working
import Custody.Proofs.Resets
import Custody.Proofs.Teardown

/-! What the destruction of some objects can come to, and that it comes to no more. An object is
destroyed or orphaned by the task that lets one of its handles go, or by a reset of its owner; each
of these leaves tasks that are sealed. -/

namespace Custody

open Relation Stake

/-- The record that a task lets a handle of go. -/
def Task.letsGo : Task → Option RecordId
  | .dropOwner o => o
  | .dropSoft s => s.map Watch.record
  | .forget r => some r
  | .dropItem _ | .retire _ | .abandon .. => none

namespace World

variable {D E S : RecordId → Prop} {a : Action} {t : Task} {ts rest : List Task} {u v w : World}
  {p q r : RecordId}

/-! ### The doomed -/

/-- A handle to `q` is in a variable of the program, or in a task that is pending. -/
def IsKept (w : World) (q : RecordId) : Prop :=
  (∃ s, w.referent s = some q) ∨ ∃ t ∈ w.pending, t.Refers q

/-- The allocations that may go with `S`: what doomed objects own, and orphans whose last handles
doomed objects have. An object that is borrowed is not destroyed, and keeps what is in it. -/
inductive Doomed (w : World) (S : RecordId → Prop) : RecordId → Prop where
  | root {q : RecordId} : S q → Doomed w S q
  | owned {p q : RecordId} : Doomed w S p → w.isBorrowed p = false → w.Owns p q → Doomed w S q
  | orphan {q : RecordId} : w.IsOrphan q → ¬ w.IsKept q → (∀ p, w.LooksAt p q → Doomed w S p) →
    (∀ p, w.LooksAt p q → w.isBorrowed p = false) → Doomed w S q

/-- The allocations that are doomed, or that an object observes that is destroyed. -/
def Touched (w : World) (S : RecordId → Prop) (q : RecordId) : Prop :=
  w.Doomed S q ∨ ∃ p, w.Doomed S p ∧ w.isBorrowed p = false ∧ w.LooksAt p q

/-- The finalizers of the doomed objects look at nothing: what is in the objects is dropped, and
that is all. -/
def DropsPlainly (w : World) (S : RecordId → Prop) : Prop :=
  ∀ p, w.Doomed S p → ∀ items, w.object? p = some items → ∀ x ∈ items, x.probes = false

/-- What is doomed is owned, directly or not, by one of `S` or by an orphan that nobody keeps. -/
theorem Doomed.exists_root (h : w.Doomed S q) :
    ∃ o, (S o ∨ w.IsOrphan o ∧ ¬ w.IsKept o ∧ ∀ p, w.LooksAt p o → w.Doomed S p) ∧
      ReflTransGen w.Owns o q := by
  induction h with
  | root hs => exact ⟨_, .inl hs, .refl⟩
  | owned _ _ hown ih =>
    obtain ⟨o, ho, hpath⟩ := ih
    exact ⟨o, ho, hpath.tail hown⟩
  | orphan horphan hkept hlooks => exact ⟨_, .inr ⟨horphan, hkept, hlooks⟩, .refl⟩

theorem Doomed.mono {T : RecordId → Prop} (h : w.Doomed S q) (hs : ∀ r, S r → T r) :
    w.Doomed T q := by
  induction h with
  | root hr => exact .root (hs _ hr)
  | owned _ hb hown ih => exact ih.owned hb hown
  | orphan horphan hkept _ hb ih => exact .orphan horphan hkept ih hb

/-- Before anything is destroyed, no task is on top. -/
theorem sealed_doomed (hp : w.DropsPlainly S) :
    w.Sealed (w.Doomed S) (w.Touched S) [] w.pending where
  touched _ hq := .inl hq
  pending := rfl
  within t ht := by cases ht
  owned p hd hb items ho x hx :=
    { plain := hp p hd items ho x hx
      owned := fun q hq => hd.owned hb ⟨items, ho, x, hx, hq⟩
      seen := fun k hk => .inr ⟨p, hd, hb, items, ho, x, hx, by rw [hk]; rfl⟩ }
  anchored q hq horphan := by
    by_contra hno
    refine hq (.orphan horphan ?_ (fun p hlooks => ?_) fun p hlooks => ?_)
    · rintro (⟨s, hs⟩ | ⟨t, ht, hrefers⟩)
      · exact hno (.inVariable s hs)
      · exact hno (.waiting t ht hrefers)
    · by_contra hp
      exact hno (.stored p (.inl hp) hlooks)
    · by_contra hb
      exact hno (.stored p (.inr (Bool.eq_true_of_not_eq_false hb)) hlooks)

/-! ### The starts -/

/-- An action starts to destroy an object, or its owner goes. -/
def Ends (w : World) (a : Action) (r : RecordId) : Prop :=
  w.Begins a r ∨ a = .tick ∧ ∃ rest, w.pending = .dropOwner (some r) :: rest

/-- The actions that do so: a handle goes, or an owner is reset. -/
inductive Looses (w : World) (r : RecordId) : Action → Prop where
  | tick {t : Task} {rest : List Task} :
    w.pending = t :: rest → t.letsGo = some r → Looses w r .tick
  | resetOwner {i : Nat} : w.owner i = some r → w.isBorrowed r = false → Looses w r (.resetOwner i)
  | resetLink {g n : Nat} {guard : Guard} {x : Item} : w.writable? g = some guard →
    w.element? guard n = some x → x.link = some r → w.isBorrowed r = false →
      Looses w r (.resetLink g n)

/-- An object that no handle is let go of stays. -/
theorem object?_perform_of_ne (h : t.letsGo ≠ some r) : (w.perform t).object? r = w.object? r := by
  have hother (hs : t.subject ≠ some r) : (w.perform t).object? r = w.object? r := by
    rw [object?, object?, (confined_perform t).others r hs]
  cases t with
  | dropOwner | dropSoft | forget => exact hother h
  | dropItem i => exact congrFun (object?_dropItem i) r
  | retire q => exact congrFun ((object?_returnBlock q).trans (object?_invalidate q)) r
  | abandon => rfl

theorem Sound.object?_of_begins (h : w.Sound) (hb : w.Begins a r) :
    (w.object? r).isSome = true ∧ (a.run w).object? r = none := by
  obtain ⟨items, -, ho, -⟩ := h.pending_begins hb
  obtain ⟨new, hnew, hret, -⟩ := h.begins hb
  exact ⟨by rw [ho]; rfl, by rw [object?_of_record hnew, (isRetiring_iff.mp hret).1]⟩

theorem Sound.looses_of_begins (h : w.Sound) (hb : w.Begins a r) : w.Looses r a := by
  obtain ⟨hsome, hnone⟩ := h.object?_of_begins hb
  have hsame (ho : (a.run w).object? r = w.object? r) : w.Looses r a := by
    rw [← ho, hnone] at hsome
    cases hsome
  cases a with
  | tick =>
    cases hp : w.pending with
    | nil => exact hsame (by rw [Action.run, tick_of_idle hp])
    | cons t rest =>
      by_cases ht : t.letsGo = some r
      · exact .tick hp ht
      · refine hsame ?_
        simp only [Action.run, World.tick, hp]
        exact object?_perform_of_ne ht
  | resetOwner i =>
    obtain ⟨-, he⟩ | ⟨-, -, he⟩ | ⟨q, hn, hi, he⟩ := h.resetAt_cases (.owner i)
    · exact hsame (by rw [Action.run, ← resetAt, he])
    · exact hsame (by rw [Action.run, ← resetAt, he])
    · by_cases hq : q = r
      · subst hq
        refine .resetOwner hi ?_
        rw [← Bool.not_eq_true, h.isBorrowed_iff]
        exact fun hg => hn ⟨q, hi, hg⟩
      · refine hsame ?_
        rw [Action.run, ← resetAt, he]
        exact object?_demolish_of_ne hq
  | resetLink g n =>
    obtain ⟨he, -⟩ | he | ⟨guard, x, q, hg, hx, hl, hq, he⟩ := w.resetLink_cases g n
    · exact hsame (by rw [Action.run, he])
    · exact hsame (by rw [Action.run, he])
    · by_cases hqr : q = r
      · subst hqr
        exact .resetLink hg hx hl hq
      · obtain ⟨-, -, -, hbefore, -⟩ := h.begins hb
        have hne : guard.record ≠ r := forall_guards_of_loans hbefore _
          (mem_guards (guard?_of_writable? hg))
        refine hsame ?_
        rw [Action.run, he, object?_demolish_of_ne hqr]
        exact object?_modifyRecord_of_ne hne
  | construct k kind p => exact absurd hb (not_begins_construct k kind p)
  | lend | duplicate | endBorrow => exact hsame (congrFun (object?_run_of_borrows rfl) r)
  | scrap | scrapNode | narrow | discardSoft | discardOwner =>
    exact hsame (congrFun (object?_congr (records_run_of_variables rfl)) r)
  | _ => exact absurd hb (not_begins [] (keeps_run (by trivial)).pending le_rfl (by simp))

theorem Sound.looses (h : w.Sound) (ha : w.Ends a r) : w.Looses r a := by
  obtain hb | ⟨rfl, rest, hp⟩ := ha
  · exact h.looses_of_begins hb
  · exact .tick hp rfl

/-! ### What they leave -/

/-- The tasks that wait while what an action starts is worked off. -/
def waiting (w : World) : Action → List Task
  | .tick => w.pending.tail
  | _ => w.pending

/-- An owner in an element that an action resets is taken out, and nothing else is done. -/
def unlinked (w : World) : Action → World
  | .resetLink g n => (w.writable? g).elim w fun guard => (w.element? guard n).elim w fun x =>
      w.setElement guard.record n (x.withLink none)
  | _ => w

theorem refers_of_letsGo (ht : t.letsGo = some r) (hq : t.Refers q) : q = r := by
  obtain ⟨s, hs, -, rfl⟩ := hq
  cases t with
  | dropOwner o =>
    obtain rfl : o = some r := ht
    obtain rfl := Multiset.mem_singleton.mp hs
    rfl
  | dropSoft k =>
    obtain ⟨k, rfl, rfl⟩ := Option.map_eq_some_iff.mp ht
    obtain rfl := Multiset.mem_singleton.mp hs
    rfl
  | forget p =>
    obtain rfl := Option.some.inj ht
    obtain rfl := Multiset.mem_singleton.mp hs
    rfl
  | dropItem | retire | abandon => cases ht

theorem within_of_letsGo (ht : t.letsGo = some r) (hD : D r) (hE : E r) : t.Within D E := by
  cases t with
  | dropOwner o =>
    rintro q rfl
    obtain rfl := Option.some.inj ht
    exact hD
  | dropSoft s =>
    rintro k rfl
    obtain rfl := Option.some.inj ht
    exact hE
  | forget q =>
    obtain rfl := Option.some.inj ht
    exact hE
  | dropItem | retire | abandon => cases ht

/-- A task about a doomed record comes on top of those that wait. -/
theorem Sealed.take (hs : w.Sealed D E [] (t :: rest)) (ht : t.letsGo = some r) (hr : D r) :
    w.Sealed D E [t] rest where
  touched := hs.touched
  pending := hs.pending
  within u hu := by
    obtain rfl := List.mem_singleton.mp hu
    exact within_of_letsGo ht hr (hs.touched r hr)
  owned := hs.owned
  anchored q hq horphan := by
    cases hs.anchored q hq horphan with
    | inVariable s h => exact .inVariable s h
    | waiting u hu hrefers =>
      obtain rfl | hu := List.mem_cons.mp hu
      · exact absurd (refers_of_letsGo ht hrefers ▸ hr) hq
      · exact .waiting u hu hrefers
    | stored p hp hlooks => exact .stored p hp hlooks

/-- An owner of `r` is taken out of its place. -/
structure Frees (w : World) (r : RecordId) (u : World) : Prop where
  stakes : w.stakes = {.owns r} + u.stakes
  pending : u.pending = w.pending
  book : u.book = w.book
  edits : w.Edits u
  referent : ∀ s q, q ≠ r → w.referent s = some q → u.referent s = some q
  objects : ∀ p, w.isBorrowed p = false → u.object? p = w.object? p
  looks : ∀ p q, w.LooksAt p q → u.LooksAt p q

theorem Edits.isSome_object? (h : w.Edits v) (p : RecordId) :
    (v.object? p).isSome = (w.object? p).isSome := by
  obtain hp | ⟨rec, f, hrec, -, hp⟩ := h p
  · rw [object?, object?, hp]
  · rw [object?_of_record hp, object?_of_record hrec, Option.isSome_map]

/-- The owner that was taken out is on its way out. -/
theorem Frees.sound (h : w.Sound) (hu : w.Frees r u) :
    (u.schedule [.dropOwner (some r)]).Sound := by
  have hstakes : (u.schedule [.dropOwner (some r)]).stakes = w.stakes := by
    rw [stakes_schedule, hu.stakes]
    simp [ofTask]
  have hguards : u.guards = w.guards := guards_of_book hu.book
  have hedits : w.Edits (u.schedule [.dropOwner (some r)]) := hu.edits
  refine ⟨fun q => (h.holds q).step (step_edit hedits hu.book ?_), ?_, ?_⟩
  · rw [stakesIn, stakesIn, hstakes]
  · exact hguards ▸ h.distinct
  · intro g hg
    have hnext : u.nextGuard = w.nextGuard := congrArg Prod.snd hu.book
    exact (h.numbered g (hguards ▸ hg)).trans_eq hnext.symm

theorem Frees.sealed (h : w.Sound) (hs : w.Sealed D E [] w.pending) (hr : D r) (hu : w.Frees r u) :
    (u.schedule [.dropOwner (some r)]).Sealed D E [.dropOwner (some r)] w.pending := by
  set v := u.schedule [.dropOwner (some r)] with hv
  have hsound : v.Sound := hu.sound h
  have hborrowed (p : RecordId) : v.isBorrowed p = w.isBorrowed p := by
    have hguards : v.guards = w.guards := guards_of_book hu.book
    rw [Bool.eq_iff_iff, h.isBorrowed_iff, hsound.isBorrowed_iff, hguards]
  refine ⟨hs.touched, by rw [hv, schedule, hu.pending], fun t ht => ?_, fun p hp hb items ho => ?_,
    fun q hq horphan => ?_⟩
  · obtain rfl := List.mem_singleton.mp ht
    exact within_of_letsGo rfl hr (hs.touched r hr)
  · rw [hborrowed] at hb
    exact hs.owned p hp hb items ((hu.objects p hb).symm.trans ho)
  · have halive : w.isAlive q = false := by
      rw [← horphan.1]
      exact (hu.edits.isAlive q).symm
    have hsome : (w.object? q).isSome = true := by
      rw [← horphan.2]
      exact (hu.edits.isSome_object? q).symm
    refine (hs.anchored q hq ⟨halive, hsome⟩).transfer
      (fun s => hu.referent s q fun hqr => hq (hqr ▸ hr)) fun p hp hlooks => ?_
    exact ⟨by rwa [hborrowed], hu.looks p q hlooks⟩

/-- All else is as it was before the owner was taken out. -/
theorem Frees.spared (h : w.Sound) (hu : w.Frees r u) (hr : D r) :
    Spared D E u (u.schedule [.dropOwner (some r)]) := by
  refine ⟨fun q hq => unharmed_of_fades (hu.sound h) ?_, fun _ _ => rfl⟩
  have hne : q ≠ r := fun hqr => hq (hqr ▸ hr)
  have hsame : (u.schedule [.dropOwner (some r)]).holding q = u.holding q := by
    have hstakes : (u.schedule [.dropOwner (some r)]).stakes = {.owns r} + u.stakes := by
      rw [stakes_schedule]
      simp [ofTask]
    have hin := stakesIn_add hstakes (r := r) (by simp [Stake.record]) q
    rw [if_neg hne, zero_add] at hin
    rw [holding, holding, hin]
    rfl
  rw [hsame]
  exact .rest _

theorem frees_setOwner {i : Nat} (hi : w.owner i = some r) : w.Frees r (w.setOwner i none) where
  stakes := by
    have hs := stakes_setOwner_none (w := w) i
    rw [hi, ofOwner_some, add_comm] at hs
    exact hs.symm
  pending := rfl
  book := rfl
  edits := fun _ => .inl rfl
  referent s q hq hs := by
    rw [referent_setOwner ?_ none, hs]
    rintro rfl
    exact hq (Option.some.inj (hs.symm.trans hi))
  objects _ _ := rfl
  looks _ _ hl := hl

theorem back_withLink (x : Item) (o : Owner) : (x.withLink o).back = x.back := by cases x <;> rfl

theorem frees_setElement (h : w.Sound) {g n : Nat} {guard : Guard} {x : Item}
    (hg : w.writable? g = some guard) (hx : w.element? guard n = some x) (hl : x.link = some r) :
    w.Frees r (w.setElement guard.record n (x.withLink none)) where
  stakes := stakes_unlink hx hl
  pending := rfl
  book := rfl
  edits := edits_modifyRecord _ _ fun _ => List.length_set
  referent _ _ _ hs := hs
  objects p hp := object?_modifyRecord_of_ne (h.ne_of_not_isBorrowed hg hp)
  looks p q hlooks := by
    obtain ⟨items, ho, y, hy, hb⟩ := hlooks
    by_cases hp : guard.record = p
    · subst hp
      obtain ⟨rec, items', hrec, hobj, hn⟩ := element?_eq_some hx
      obtain rfl : items' = items := by
        rw [object?_of_record hrec, hobj] at ho
        exact Option.some.inj ho
      have hset : (w.setElement guard.record n (x.withLink none)).object? guard.record =
          some (items'.set n (x.withLink none)) := by
        simp [object?, setElement, modifyRecord, Array.getElem?_modify, hrec, hobj]
      obtain ⟨m, hm⟩ := List.mem_iff_getElem?.mp hy
      refine ⟨_, hset, ?_⟩
      by_cases hnm : n = m
      · subst hnm
        obtain rfl := Option.some.inj (hn.symm.trans hm)
        refine ⟨x.withLink none, List.mem_set ?_ _, by rw [back_withLink, hb]⟩
        exact (List.getElem?_eq_some_iff.mp hn).1
      · exact ⟨y, List.mem_iff_getElem?.mpr ⟨m, by rw [List.getElem?_set_ne hnm, hm]⟩, hb⟩
    · exact ⟨items, by rw [setElement, object?_modifyRecord_of_ne hp, ho], y, hy, hb⟩

/-- What an owner that is taken out owned is destroyed, which is what dropping the owner comes
to. -/
theorem Frees.demolish (h : w.Sound) (hs : w.Sealed D E [] w.pending) (hr : D r) (hu : w.Frees r u)
    (hb : u.isBorrowed r = false) (hv : v = (u.schedule [.forget r]).demolish r) :
    (∃ ts, v.Sealed D E ts w.pending) ∧ Spared D E u v := by
  have htick : (u.schedule [.dropOwner (some r)]).tick = v := by
    have hfree : (u.schedule [.forget r]).isBorrowed r = false := hb
    rw [hv, World.tick]
    simp only [schedule, List.cons_append, List.nil_append, perform, dropOwner]
    exact if_neg (by simpa [schedule] using hfree)
  obtain ⟨hsealed, hstep⟩ := (hu.sealed h hs hr).tick (hu.sound h)
  rw [htick] at hsealed hstep
  exact ⟨hsealed, (hu.spared h hr).trans hstep⟩

/-- An owner in a variable of the program does not show. -/
theorem Frees.spared_of_records (hu : w.Frees r u) (he : u.records = w.records) (hr : D r) :
    Spared D E w u := by
  refine ⟨fun q hq => ?_, fun q _ => by rw [he]⟩
  have hne : q ≠ r := fun hqr => hq (hqr ▸ hr)
  have hin := stakesIn_add hu.stakes (r := r) (by simp [Stake.record]) q
  rw [if_neg hne, zero_add] at hin
  refine ⟨by rw [face, face, he], loans_congr hu.book q, ?_, fun _ _ => ?_,
    fun _ _ => isValid_congr he _⟩
  · rw [observersOf, observersOf, hin]
  · rw [World.standing, World.standing, he]

theorem unlinked_resetLink {g n : Nat} {guard : Guard} {x : Item} (hg : w.writable? g = some guard)
    (hx : w.element? guard n = some x) :
    w.unlinked (.resetLink g n) = w.setElement guard.record n (x.withLink none) := by
  simp only [unlinked, hg, hx, Option.elim_some]

theorem Looses.guards (ha : w.Looses r a) : (a.run w).guards = w.guards := by
  cases ha with
  | tick => exact guards_of_book book_tick
  | resetOwner hi hb =>
    simp only [Action.run, World.resetOwner, hi, hb, Bool.false_eq_true, if_false]
    exact guards_of_book (book_demolish r)
  | resetLink => exact guards_resetLink w _ _

/-- Once an action starts to destroy a doomed object, or its owner goes, the tasks above those that
wait are sealed, and all else is spared. -/
theorem Sealed.ends (h : w.Sound) (hs : w.Sealed D E [] w.pending) (hr : D r) (ha : w.Looses r a) :
    (∃ ts, (a.run w).Sealed D E ts (w.waiting a)) ∧ Spared D E (w.unlinked a) (a.run w) ∧
      TellsOnly D w (a.run w) := by
  cases ha with
  | @tick t rest hp ht =>
    rw [hp] at hs
    have htop := hs.take ht hr
    obtain ⟨hsealed, hstep⟩ := htop.tick h
    rw [waiting, hp]
    exact ⟨hsealed, hstep, htop.tells h⟩
  | @resetOwner i hi hb =>
    have hu := frees_setOwner hi
    have hv : (Action.resetOwner i).run w =
        ((w.setOwner i none).schedule [.forget r]).demolish r := by
      simp [Action.run, World.resetOwner, hi, hb]
    obtain ⟨hsealed, hstep⟩ := hu.demolish h hs hr hb hv
    exact ⟨hsealed, (hu.spared_of_records rfl hr).trans hstep, .inl (invalidations_run (by simp))⟩
  | @resetLink g n guard x hg hx hl hb =>
    have hu := frees_setElement h hg hx hl
    have hfree : (w.setElement guard.record n (x.withLink none)).isBorrowed r = false := by
      simpa [isBorrowed, setElement, modifyRecord, Array.getElem?_modify,
        h.ne_of_not_isBorrowed hg hb] using hb
    have hv : (Action.resetLink g n).run w =
        ((w.setElement guard.record n (x.withLink none)).schedule [.forget r]).demolish r := by
      simp [Action.run, World.resetLink, hg, hx, hl, hb]
    obtain ⟨hsealed, hstep⟩ := hu.demolish h hs hr hfree hv
    rw [unlinked_resetLink hg hx]
    exact ⟨hsealed, hstep, .inl (invalidations_run (by simp))⟩

end World

end Custody

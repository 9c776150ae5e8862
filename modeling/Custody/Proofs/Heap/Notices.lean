import Custody.Handle.Owner
import Custody.Proofs.Memory.Stills
import Custody.Proofs.SlotTable.Registry

/-! Notices. A heap counts the registrations that were told that their owner has gone. They
are told when an owner goes while its object is borrowed, and when a destruction ends; no
other action tells anybody. Once the observers of a record were told, nobody is left to be
told a second time: who registers later is told at once. -/

namespace Custody

/-! ### Live observers -/

namespace SlotTable

variable {t : SlotTable}

/-- Whether no observer still believes that there is an owner. -/
def IsHushed (t : SlotTable) : Prop := ∀ k, t.find? k ≠ some .live

theorem isHushed_update : (t.update fun _ _ => .gone).IsHushed := by
  intro k hk
  rw [find?_update] at hk
  obtain ⟨s, -, hs⟩ := Option.map_eq_some_iff.mp hk
  cases hs

theorem IsHushed.remove (h : t.IsHushed) (k : Ticket) : (t.remove k).2.IsHushed := by
  intro j
  rw [find?_remove, Function.update_apply]
  split_ifs
  · simp
  · exact h j

theorem IsHushed.enrol (h : t.IsHushed) (hs : t.Sound) {k : Ticket} (hk : t.nextTicket = .ok k) :
    (t.enrol .gone).IsHushed := by
  intro j
  rw [hs.find?_enrol hk, Function.update_apply]
  split_ifs
  · simp
  · exact h j

theorem IsHushed.liveCount (h : t.IsHushed) (hs : t.Sound) : t.liveCount = 0 := by
  rw [SlotTable.liveCount, List.length_eq_zero_iff, List.filter_eq_nil_iff]
  rintro ⟨k, s⟩ hmem
  have hks := hs.mem_entries.mp hmem
  simp only [decide_eq_true_iff]
  rintro rfl
  exact h k hks

end SlotTable

/-- Whether the object of a record has no owner, and all observers were told. -/
structure Record.IsHushed (rec : Record) : Prop where
  dead : rec.isAlive = false
  told : rec.slots.IsHushed

theorem Record.isHushed_abandoned (rec : Record) : rec.abandoned.IsHushed :=
  ⟨rec.isAlive_abandoned, SlotTable.isHushed_update⟩

/-- Who registers after the others were told is told at once. -/
theorem Record.IsHushed.enrol {rec : Record} {ts : Multiset (Option Ticket)} {t : Option Ticket}
    (h : rec.IsHushed) (he : rec.Enrolled ts) (ht : rec.nextTicket = .ok t) :
    rec.enrol.IsHushed := by
  refine ⟨rec.isAlive_enrol.trans h.dead, ?_⟩
  unfold Record.nextTicket at ht
  by_cases hm : rec.kind.mode.isTracked = true
  · rw [if_pos hm] at ht
    cases hn : rec.slots.nextTicket with
    | error e => simp [hn, Except.map] at ht
    | ok k =>
      have hslots : rec.enrol.slots = rec.slots.enrol .gone := by
        simp [Record.enrol, hm, Record.standing, h.dead]
      rw [hslots]
      exact h.told.enrol he.slots hn
  · have hrec : rec.enrol = rec := if_neg hm
    rw [hrec]
    exact h.told

/-- Who registers when the object has no owner is told so at once. -/
theorem Record.Enrolled.find?_enrol_of_dead {rec : Record} {ts : Multiset (Option Ticket)}
    {t : Ticket} (h : rec.Enrolled ts) (hd : rec.isAlive = false)
    (ht : rec.nextTicket = .ok (some t)) : rec.enrol.slots.find? t = some .gone := by
  unfold Record.nextTicket at ht
  split_ifs at ht with hm
  · cases hn : rec.slots.nextTicket with
    | error e => simp [hn, Except.map] at ht
    | ok k =>
      obtain rfl : k = t := by simpa [hn, Except.map] using ht
      simp [Record.enrol, hm, Record.standing, hd, h.slots.find?_enrol hn]
  · cases Except.ok.inj ht

theorem Record.IsHushed.deregister {rec : Record} (h : rec.IsHushed) (t : Option Ticket) :
    (rec.deregister t).IsHushed := by
  refine ⟨(rec.isAlive_deregister t).trans h.dead, ?_⟩
  cases t with
  | none => exact h.told
  | some k => exact h.told.remove k

/-- Nothing that happens to a record revives its observers. -/
theorem Holding.Step.isHushed {r : RecordId} {h k : Holding} (hk : Holding.Step r h k)
    (hs : Holding.Sound r h) {rec new : Record} (hr : h.record = some rec) (hq : rec.IsHushed)
    (hn : k.record = some new) : new.IsHushed := by
  obtain ⟨later, hlater, hstays⟩ := hk.later hr
  obtain rfl := Option.some.inj (hlater.symm.trans hn)
  have hdead := hstays.dead hq.dead
  cases hk with
  | rest =>
    obtain rfl := Option.some.inj (hr.symm.trans hn)
    exact hq
  | found => cases hr
  | register ht =>
    obtain rfl := Option.some.inj hr
    obtain rfl := Option.some.inj hn
    exact ⟨hdead, (hq.enrol (Agrees.enrolled hs) ht).told⟩
  | probe ht =>
    obtain rfl := Option.some.inj hr
    obtain rfl := Option.some.inj hn
    exact (hq.enrol (Agrees.enrolled hs) ht).deregister _
  | deregister =>
    obtain rfl := Option.some.inj hr
    obtain rfl := Option.some.inj hn
    exact hq.deregister _
  | orphan | retire =>
    obtain rfl := Option.some.inj hn
    exact ⟨hdead, SlotTable.isHushed_update⟩
  | edit | demolish | leave | collapse | lend | redeem =>
    obtain rfl := Option.some.inj hr
    obtain rfl := Option.some.inj hn
    exact ⟨hdead, hq.told⟩

namespace World

variable {v w : World} {r : RecordId} {rec : Record}

/-! ### What is counted -/

/-- How many registrations heap `h` has told that their owner has gone. -/
def invalidations (w : World) (h : HeapId) : Nat :=
  (w.heaps[h]?.map fun heap => heap.stats.invalidations).getD 0

/-- How many observers of a record still believe that there is an owner. -/
def liveObservers (w : World) (r : RecordId) : Nat :=
  (w.records[r]?.map fun rec => rec.slots.liveCount).getD 0

/-- How many registrations heap `h` counts when the observers of record `r` are told: all
that are live, if the record is on this heap. -/
def notice (w : World) (r : RecordId) (h : HeapId) : Nat :=
  if w.heapOf (some r) = some h ∧ h < w.heaps.size then w.liveObservers r else 0

/-- The record whose observers an action tells that their owner has gone. -/
def told? (w : World) : Action → Option RecordId
  | .tick =>
    match w.pending with
    | .dropOwner (some r) :: _ => if w.isBorrowed r then some r else none
    | .retire r :: _ => some r
    | _ => none
  | _ => none

theorem liveObservers_of_record (hr : w.records[r]? = some rec) :
    w.liveObservers r = rec.slots.liveCount := by
  simp [liveObservers, hr]

theorem heapOf_some (hr : w.records[r]? = some rec) : w.heapOf (some r) = some rec.heap := by
  simp [heapOf, hr]

/-- A notice that finds nobody is not counted. -/
theorem notice_of_liveObservers (h : w.liveObservers r = 0) (k : HeapId) : w.notice r k = 0 := by
  rw [notice, h, ite_self]

theorem notice_congr (hr : v.records = w.records) (hh : v.heaps.size = w.heaps.size) :
    v.notice = w.notice := by
  funext r k
  have hheap : v.heapOf (some r) = w.heapOf (some r) := by rw [heapOf, heapOf, hr]
  rw [notice, notice, hheap, hh, liveObservers, liveObservers, hr]

theorem invalidations_congr (h : v.heaps = w.heaps) : v.invalidations = w.invalidations := by
  funext k
  rw [invalidations, invalidations, h]

theorem invalidations_modifyHeap {f : Heap → Heap} (h : HeapId)
    (hf : ∀ heap, (f heap).stats.invalidations = heap.stats.invalidations) :
    (w.modifyHeap h f).invalidations = w.invalidations := by
  funext k
  simp only [invalidations, modifyHeap, Array.getElem?_modify]
  split_ifs
  · cases w.heaps[k]? <;> simp [hf]
  · rfl

/-- How many registrations heap `h` counts, and how many of them as told. -/
def tallies (w : World) (h : HeapId) : Nat × Nat :=
  (w.heaps[h]?.map fun heap => (heap.stats.registrations, heap.stats.invalidations)).getD (0, 0)

theorem invalidations_of_tallies (h : v.tallies = w.tallies) :
    v.invalidations = w.invalidations := by
  have heq (u : World) : u.invalidations = fun k => (u.tallies k).2 := by
    funext k
    rw [invalidations, tallies]
    cases u.heaps[k]? <;> rfl
  rw [heq, heq, h]

theorem tallies_congr (h : v.heaps = w.heaps) : v.tallies = w.tallies := by
  funext k
  rw [tallies, tallies, h]

theorem tallies_modifyHeap {f : Heap → Heap} (h : HeapId)
    (hf : ∀ heap, (f heap).stats.registrations = heap.stats.registrations ∧
      (f heap).stats.invalidations = heap.stats.invalidations) :
    (w.modifyHeap h f).tallies = w.tallies := by
  funext k
  simp only [tallies, modifyHeap, Array.getElem?_modify]
  split_ifs
  · cases w.heaps[k]? <;> simp [hf]
  · rfl

theorem tallies_release (h : HeapId) (b : Block) (keep : Bool) :
    (w.modifyHeap h (·.release b keep)).tallies = w.tallies := by
  apply tallies_modifyHeap
  intro heap
  unfold Heap.release
  dsimp only
  split_ifs <;> exact ⟨rfl, rfl⟩

theorem tallies_allocate {h : HeapId} {payload : Layout} {n : Nat} {b : Block}
    (hv : w.allocate h payload n = .ok (b, v)) : v.tallies = w.tallies := by
  obtain ⟨arena, -, rfl⟩ := allocate_eq_ok hv
  have hsame : ({ w with arena := arena } : World).tallies = w.tallies := tallies_congr rfl
  exact (tallies_modifyHeap h fun _ => by exact ⟨rfl, rfl⟩).trans hsame

theorem tallies_openHeap (c : Config) : (w.openHeap c).2.tallies = w.tallies := by
  unfold openHeap
  split
  · rfl
  · rename_i heap hheap
    obtain rfl : heap = .fresh c := by
      unfold Heap.open? at hheap
      cases hc : c.check <;> simp [hc, bind, Except.bind, pure, Except.pure] at hheap
      exact hheap.symm
    funext k
    simp only [tallies, Array.getElem?_push]
    split_ifs with hk
    · simp [hk, Heap.fresh, Stats.zero]
    · rfl

/-- What is done with heaps and raw blocks is not about observers. -/
theorem tallies_run_of_heaps {a : Action} (ha : a.concern = .heaps) :
    (a.run w).tallies = w.tallies := by
  cases a with
  | openHeap c => exact tallies_openHeap c
  | allot h l n =>
    simp only [Action.run, allot]
    split
    · rfl
    · rename_i b v hv
      have hsame := tallies_allocate hv
      exact (tallies_congr rfl).trans hsame
  | fill => rfl
  | giveBack b h =>
    simp only [Action.run, giveBack]
    split
    · rfl
    · exact (tallies_release _ _ _).trans (tallies_congr rfl)
  | reclaim h => exact tallies_modifyHeap h fun _ => ⟨rfl, rfl⟩
  | setDetecting h on =>
    rw [Action.run, setDetecting_snd]
    apply tallies_modifyHeap
    intro heap
    simp only [Heap.obey, Heap.setDetecting]
    cases heap.quarantine.setDetecting on <;> exact ⟨rfl, rfl⟩
  | _ => cases ha

theorem invalidations_noteRegistered (r : RecordId) (t : Option Ticket) :
    (w.noteRegistered r t).invalidations = w.invalidations := by
  unfold noteRegistered
  split
  · rfl
  · split_ifs
    · exact invalidations_modifyHeap _ fun _ => rfl
    · rfl

/-! ### Who is told -/

/-- All live observers of a record are told at once. -/
theorem invalidations_invalidate (r : RecordId) (k : HeapId) :
    (w.invalidate r).invalidations k = w.invalidations k + w.notice r k := by
  unfold invalidate
  cases hr : w.records[r]? with
  | none => simp [notice, heapOf, hr]
  | some rec =>
    simp only [notice, heapOf_some hr, liveObservers_of_record hr, Option.some.injEq, invalidations,
      modifyHeap, modifyRecord, Array.getElem?_modify]
    by_cases hk : rec.heap = k
    · subst hk
      cases hh : w.heaps[rec.heap]? with
      | none =>
        have hle : ¬ rec.heap < w.heaps.size := by simpa using hh
        simp [hle]
      | some heap =>
        have hlt := (Array.getElem?_eq_some_iff.mp hh).1
        simp [hlt, Heap.noteInvalidated, Stats.invalidated, SlotTable.dismissAll]
    · simp [hk]

theorem invalidations_orphan (hr : w.records[r]? = some rec) (ho : rec.orphaned = false)
    (k : HeapId) : (w.orphan r).invalidations k = w.invalidations k + w.notice r k := by
  have hmod := replaces_modifyRecord hr fun rec => { rec with orphaned := true }
  have hf : w.records[r]?.any Record.orphaned = false := by simp [hr, ho]
  simp only [orphan, hf, Bool.false_eq_true, if_false, invalidations_invalidate]
  congr 1
  simp only [notice, heapOf_some hmod.self, heapOf_some hr, liveObservers_of_record hmod.self,
    liveObservers_of_record hr]
  rfl

theorem invalidations_returnBlock (r : RecordId) :
    (w.returnBlock r).invalidations = w.invalidations := by
  unfold returnBlock
  split
  · rfl
  · split
    · rfl
    · exact (invalidations_of_tallies (tallies_release _ _ _)).trans (invalidations_congr rfl)

theorem invalidations_copyBriefly (s : Soft) :
    (w.copyBriefly s).2.invalidations = w.invalidations := by
  unfold copyBriefly
  split
  · rfl
  · split
    · rfl
    · split
      · rfl
      · exact (invalidations_noteRegistered _ _).trans (invalidations_congr rfl)

theorem invalidations_finalize (value : Int64) (f : Finalizer) (prev : Soft) :
    (w.finalize value f prev).invalidations = w.invalidations := by
  have hcopy :=
    (invalidations_copyBriefly (w := { w with log := .dropped value :: w.log }) prev).trans
    (invalidations_congr (w := w) rfl)
  unfold finalize
  split_ifs
  · exact (invalidations_congr (heaps_raise _)).trans hcopy
  · exact hcopy
  · exact invalidations_congr (heaps_raise _)
  · rfl

theorem invalidations_dropItem (i : Item) : (w.dropItem i).invalidations = w.invalidations := by
  cases i with
  | node value f next prev => exact invalidations_finalize value f prev
  | unit | int | byte | bucket | entry => rfl

/-- The tasks that tell nobody. -/
theorem invalidations_perform {t : Task}
    (ho : ∀ r, t = .dropOwner (some r) → w.isBorrowed r = false) (hr : ∀ r, t ≠ .retire r) :
    (w.perform t).invalidations = w.invalidations := by
  cases t with
  | dropOwner o =>
    cases o with
    | none => rfl
    | some r =>
      have hb : (w.schedule [.forget r]).isBorrowed r = false := ho r rfl
      simp only [perform, dropOwner, hb]
      exact invalidations_congr (heaps_demolish r)
  | dropSoft s => cases s <;> rfl
  | dropItem i => exact invalidations_dropItem i
  | retire r => exact absurd rfl (hr r)
  | forget r =>
    simp only [perform, forget]
    split_ifs
    · exact invalidations_congr (heaps_demolish r)
    · rfl
  | abandon h b => exact invalidations_of_tallies (tallies_release h b false)

/-! ### Every action -/

theorem invalidations_watch (r : RecordId) : (w.watch r).2.invalidations = w.invalidations := by
  unfold watch
  split
  · rfl
  · split_ifs
    · rfl
    · split
      · rfl
      · exact (invalidations_noteRegistered _ _).trans (invalidations_congr rfl)

theorem invalidations_construct (h : HeapId) (k : Kind) (p : Plan) :
    (w.construct h k p).2.invalidations = w.invalidations := by
  rw [construct_eq]
  split
  · rfl
  · split
    · rfl
    · rename_i b v hv
      have hsame := invalidations_of_tallies (tallies_allocate hv)
      split
      · exact (invalidations_congr (heaps_raise _)).trans hsame
      · exact hsame

/-- Nobody is told anything but by a tick. -/
theorem invalidations_run {a : Action} (ha : a ≠ .tick) :
    (a.run w).invalidations = w.invalidations := by
  cases a with
  | openHeap | allot | fill | giveBack | reclaim | setDetecting =>
    exact invalidations_of_tallies (tallies_run_of_heaps rfl)
  | newScan | newWalk | attach =>
    exact run_of_observers (·.invalidations = w.invalidations) rfl rfl invalidations_watch
      fun _ _ _ hh h => (invalidations_congr hh).trans h
  | construct h k p => exact invalidations_construct h k p
  | lend | duplicate | endBorrow => exact invalidations_congr (heaps_run_of_borrows rfl)
  | put | exchangeLink | exchangeBack => exact invalidations_congr (heaps_run_of_elements rfl)
  | resetOwner | resetLink => exact invalidations_congr (heaps_run_of_resets rfl)
  | tick => exact absurd rfl ha
  | _ => exact invalidations_congr (heaps_run_of_variables rfl)

/-- An owner that is on its way out is the owner of an object that is there. -/
theorem Sound.record_of_dropOwner (h : w.Sound) {rest : List Task}
    (hp : w.pending = .dropOwner (some r) :: rest) :
    ∃ rec items, w.records[r]? = some rec ∧ rec.object = some items ∧ rec.orphaned = false := by
  have hst : w.stakes = {.owns r} + { w with pending := rest }.stakes := by
    rw [stakes_pop hp]
    rfl
  obtain ⟨rec, items, hr, hitems, horph, -⟩ := h.agrees_owner hst
  exact ⟨rec, items, hr, hitems, horph⟩

/-- The owner that goes while its object is borrowed is the one moment before the end of a
destruction at which observers are told. -/
theorem Sound.invalidations_dropOwner (h : w.Sound) {rest : List Task}
    (hp : w.pending = .dropOwner (some r) :: rest) (k : HeapId) :
    w.tick.invalidations k = w.invalidations k + if w.isBorrowed r then w.notice r k else 0 := by
  obtain ⟨rec, items, hr, -, horph⟩ := h.record_of_dropOwner hp
  obtain ⟨u, hu⟩ : ∃ u : World, u = ({ w with pending := rest } : World).schedule [.forget r] :=
    ⟨_, rfl⟩
  have hub : u.isBorrowed r = w.isBorrowed r := by rw [hu]; rfl
  have hui : u.invalidations = w.invalidations := by rw [hu]; rfl
  have hun : u.notice = w.notice := by rw [hu]; exact notice_congr rfl rfl
  have hur : u.records[r]? = some rec := by rw [hu]; exact hr
  simp only [tick, hp, perform, dropOwner, ← hu, hub]
  split_ifs
  · rw [invalidations_congr (heaps_raise _), invalidations_orphan hur horph, hui, hun]
  · rw [invalidations_congr (heaps_demolish r), hui, add_zero]

theorem invalidations_retire {rest : List Task} (hp : w.pending = .retire r :: rest) (k : HeapId) :
    w.tick.invalidations k = w.invalidations k + w.notice r k := by
  have hn : ({ w with pending := rest } : World).notice = w.notice := notice_congr rfl rfl
  simp only [tick, hp, perform, invalidations_returnBlock, invalidations_invalidate, hn]
  rfl

/-- What an action adds to the count of a heap: the observers of the record that it tells,
and none if it tells no record. -/
theorem Sound.invalidations_run (h : w.Sound) (a : Action) (k : HeapId) :
    (a.run w).invalidations k =
      w.invalidations k + (w.told? a).elim 0 fun r => w.notice r k := by
  by_cases ha : a = .tick
  · subst ha
    simp only [Action.run]
    cases hp : w.pending with
    | nil => simp [tick, told?, hp]
    | cons t rest =>
      have hplain (ho : ∀ r, t ≠ .dropOwner (some r)) (hr : ∀ r, t ≠ .retire r) :
          w.tick.invalidations = w.invalidations := by
        have hperform := invalidations_perform (w := { w with pending := rest }) (t := t)
          (fun q hq => absurd hq (ho q)) hr
        simp only [tick, hp, hperform]
        rfl
      cases t with
      | dropOwner o =>
        cases o with
        | none => simp [told?, hp, hplain]
        | some r =>
          rw [h.invalidations_dropOwner hp]
          simp only [told?, hp]
          split_ifs <;> rfl
      | retire r =>
        rw [invalidations_retire hp]
        simp [told?, hp]
      | dropSoft | dropItem | forget | abandon => simp [told?, hp, hplain]
  · have htold : w.told? a = none := by
      cases a <;> first | rfl | exact absurd rfl ha
    rw [World.invalidations_run ha, htold]
    rfl

/-! ### Nobody is told twice -/

/-- Whether nobody is left to be told about a record, now or later. -/
def IsHushed (w : World) (r : RecordId) : Prop := ∃ rec, w.records[r]? = some rec ∧ rec.IsHushed

theorem Sound.isHushed_later (h : w.Sound) (hr : w.IsHushed r) (hv : w.Reaches v) :
    v.IsHushed r := by
  induction hv with
  | refl => exact hr
  | @step u a hu ih =>
    obtain ⟨rec, hrec, hq⟩ := ih
    have hs := h.reaches hu
    obtain ⟨new, hnew, -⟩ := (step_run hs a r).later hrec
    exact ⟨new, hnew, (step_run hs a r).isHushed (hs.holds r) hrec hq hnew⟩

theorem Sound.liveObservers_of_isHushed (h : w.Sound) (hr : w.IsHushed r) :
    w.liveObservers r = 0 := by
  obtain ⟨rec, hrec, hq⟩ := hr
  rw [liveObservers_of_record hrec]
  exact hq.told.liveCount (h.agrees hrec).enrolled.slots

end World

end Custody

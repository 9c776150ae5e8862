import Custody.Proofs.Ledger.Ticks

/-! What an action leaves as it was, by what it is about. An action about heaps leaves all
records, one about handles in variables leaves records and heaps, one about guards changes no
record but its borrow, and one about elements none but its object. Whoever needs to know that
something stays takes it from here, and is left with the few actions that do change it. -/

namespace Custody

/-- What an action is about. -/
inductive Concern where
  /-- Heaps, and raw blocks. -/
  | heaps
  /-- Variables, and what is going on: handles that move or go, panics, reports. -/
  | variables
  /-- An observer of a record. -/
  | observers
  /-- A new object. -/
  | building
  /-- The borrow of an object. -/
  | borrows
  /-- The elements of a borrowed object. -/
  | elements
  /-- An owner that is emptied. -/
  | resets
  /-- The next task of a destruction. -/
  | tasks
  deriving DecidableEq, Repr

def Action.concern : Action → Concern
  | .openHeap _ | .allot .. | .fill .. | .giveBack .. | .reclaim _ | .setDetecting .. => .heaps
  | .newOwner | .newSoft | .scrap _ | .scrapNode .. | .swapOwners .. | .swapSofts ..
  | .discardOwner _ | .discardSoft _ | .narrow .. | .moveScan .. | .moveWalk .. | .raise _
  | .recover | .clearLog => .variables
  | .newScan .. | .newWalk .. | .attach .. => .observers
  | .construct .. => .building
  | .lend .. | .duplicate _ | .endBorrow _ => .borrows
  | .put .. | .exchangeLink .. | .exchangeBack .. => .elements
  | .resetOwner _ | .resetLink .. => .resets
  | .tick => .tasks

namespace World

variable {v w : World} {a : Action}

/-- A block that is granted changes nothing but the arena and the heap's counters. -/
theorem allocate_eq_ok {h : HeapId} {payload : Layout} {n : Nat} {b : Block}
    (hv : w.allocate h payload n = .ok (b, v)) :
    ∃ arena, w.arena.allocate payload n = .ok (b, arena) ∧
      v = { w with arena := arena }.modifyHeap h (·.noteAllocated b) := by
  unfold allocate at hv
  cases ha : w.arena.allocate payload n with
  | error e =>
    rw [ha] at hv
    cases hv
  | ok a =>
    rw [ha] at hv
    obtain ⟨rfl, rfl⟩ := Prod.mk.inj (Except.ok.inj hv)
    exact ⟨a.2, rfl, rfl⟩

/-! ### Records -/

theorem records_setSoft (p : SoftPlace) (s : Soft) : (w.setSoft p s).records = w.records := by
  cases p <;> rfl

theorem records_vacate (p : SoftPlace) : (w.vacate p).records = w.records := by cases p <;> rfl

theorem records_swapSofts (p q : SoftPlace) : (w.swapSofts p q).records = w.records := by
  unfold swapSofts
  split
  · split_ifs
    · exact (records_setSoft q _).trans (records_setSoft p _)
    · rfl
  · rfl

theorem records_discardSoft (p : SoftPlace) : (w.discardSoft p).records = w.records := by
  unfold discardSoft
  split_ifs
  · rfl
  · exact records_vacate p

theorem records_scrapNode (x : Int64) (f : Finalizer) (i : Nat) (p : SoftPlace) :
    (w.scrapNode x f i p).records = w.records := by
  unfold scrapNode
  split_ifs
  · exact records_vacate p
  · rfl

theorem records_run_of_heaps (ha : a.concern = .heaps) : (a.run w).records = w.records := by
  cases a with
  | allot h l n =>
    simp only [Action.run, allot]
    split
    · rfl
    · rename_i b v hv
      obtain ⟨arena, -, rfl⟩ := allocate_eq_ok hv
      rfl
  | openHeap | giveBack | setDetecting =>
    simp only [Action.run, openHeap, giveBack, setDetecting]
    split <;> rfl
  | fill | reclaim => rfl
  | _ => cases ha

theorem records_run_of_variables (ha : a.concern = .variables) : (a.run w).records = w.records := by
  cases a with
  | scrapNode x f i p => exact records_scrapNode x f i p
  | swapSofts p q => exact records_swapSofts p q
  | discardSoft p => exact records_discardSoft p
  | raise p => exact records_raise p
  | swapOwners | discardOwner | recover =>
    simp only [Action.run, swapOwners, discardOwner, recover]
    (repeat' split) <;> rfl
  | newOwner | newSoft | scrap | narrow | moveScan | moveWalk | clearLog => rfl
  | _ => cases ha

/-- A record is the same but for its borrow. -/
theorem map_records_run_of_borrows {α : Type} {f : Record → α} (ha : a.concern = .borrows)
    (hf : ∀ rec b, f { rec with borrow := b } = f rec) (r : RecordId) :
    (a.run w).records[r]?.map f = w.records[r]?.map f := by
  have hmodify (q : RecordId) (b : Record → Borrow) :
      (w.modifyRecord q fun rec => { rec with borrow := b rec }).records[r]?.map f =
        w.records[r]?.map f := by
    simp only [modifyRecord, Array.getElem?_modify]
    split_ifs
    · cases w.records[r]? <;> simp [hf]
    · rfl
  cases a with
  | lend s a =>
    simp only [Action.run, lend]
    (repeat' split) <;> first | rfl | exact hmodify _ _
  | duplicate g =>
    simp only [Action.run, duplicate]
    (repeat' split) <;> first | rfl | exact hmodify _ _
  | endBorrow g =>
    simp only [Action.run, endBorrow]
    split
    · rfl
    · exact hmodify _ _
  | _ => cases ha

/-- A record is the same but for its object. -/
theorem map_records_run_of_elements {α : Type} {f : Record → α} (ha : a.concern = .elements)
    (hf : ∀ rec o, f { rec with object := o } = f rec) (r : RecordId) :
    (a.run w).records[r]?.map f = w.records[r]?.map f := by
  have hmodify (q : RecordId) (e : List Item → List Item) :
      (w.modifyRecord q fun rec => { rec with object := rec.object.map e }).records[r]?.map f =
        w.records[r]?.map f := by
    simp only [modifyRecord, Array.getElem?_modify]
    split_ifs
    · cases w.records[r]? <;> simp [hf]
    · rfl
  cases a with
  | put g x =>
    simp only [Action.run, put]
    split
    · rfl
    · exact hmodify _ _
  | exchangeLink g i j =>
    simp only [Action.run, exchangeLink]
    (repeat' split) <;> first | rfl | exact hmodify _ _
  | exchangeBack g i p =>
    simp only [Action.run, exchangeBack]
    (repeat' split) <;> first | rfl | (rw [records_setSoft]; exact hmodify _ _)
  | _ => cases ha

/-! ### Heaps -/

theorem heaps_raise (p : Panic) : (w.raise p).heaps = w.heaps := by
  unfold raise
  split_ifs <;> rfl

theorem heaps_demolish (r : RecordId) : (w.demolish r).heaps = w.heaps := by
  unfold demolish
  split
  · rfl
  · split <;> rfl

theorem heaps_setSoft (p : SoftPlace) (s : Soft) : (w.setSoft p s).heaps = w.heaps := by
  cases p <;> rfl

theorem heaps_vacate (p : SoftPlace) : (w.vacate p).heaps = w.heaps := by cases p <;> rfl

theorem heaps_run_of_variables (ha : a.concern = .variables) : (a.run w).heaps = w.heaps := by
  cases a with
  | raise p => exact heaps_raise p
  | swapSofts p q =>
    simp only [Action.run, swapSofts]
    (repeat' split) <;> first | rfl | exact (heaps_setSoft q _).trans (heaps_setSoft p _)
  | scrapNode x f i p =>
    simp only [Action.run, scrapNode]
    split_ifs
    · exact heaps_vacate p
    · rfl
  | discardSoft p =>
    simp only [Action.run, discardSoft]
    split_ifs
    · rfl
    · exact heaps_vacate p
  | swapOwners | discardOwner | recover =>
    simp only [Action.run, swapOwners, discardOwner, recover]
    (repeat' split) <;> rfl
  | newOwner | newSoft | scrap | narrow | moveScan | moveWalk | clearLog => rfl
  | _ => cases ha

theorem heaps_run_of_borrows (ha : a.concern = .borrows) : (a.run w).heaps = w.heaps := by
  cases a with
  | lend | duplicate | endBorrow =>
    simp only [Action.run, lend, duplicate, endBorrow]
    (repeat' split) <;> rfl
  | _ => cases ha

theorem heaps_run_of_elements (ha : a.concern = .elements) : (a.run w).heaps = w.heaps := by
  cases a with
  | put | exchangeLink =>
    simp only [Action.run, put, exchangeLink]
    (repeat' split) <;> rfl
  | exchangeBack g i p =>
    simp only [Action.run, exchangeBack]
    (repeat' split) <;> first | rfl | exact heaps_setSoft p _
  | _ => cases ha

/-! ### Observers -/

/-- What holds of `w`, with a handle registered in it too, and is kept when a variable is
filled, holds after attaching. -/
theorem attach_frame (P : World → Prop) (r : RecordId) (p : SoftPlace) (h : P w)
    (hw : P (w.watch r).2) (hs : ∀ v s, P v → P (v.setSoft p s)) : P (w.attach r p).2 := by
  unfold attach
  split_ifs
  · split
    · rename_i e v hv
      rwa [hv] at hw
    · rename_i s v hv
      rw [hv] at hw
      exact hs v s hw
  · exact h

theorem newScan_frame (P : World → Prop) (r : Option RecordId) (i : UInt64) (h : P w)
    (hw : ∀ r, P (w.watch r).2) (hs : ∀ v c, P v → P { v with scans := v.scans.push c }) :
    P (w.newScan r i).2 := by
  cases r with
  | none => exact hs w _ h
  | some r =>
    have hwr := hw r
    simp only [newScan]
    split
    · rename_i e v hv
      rwa [hv] at hwr
    · rename_i s v hv
      rw [hv] at hwr
      exact hs v _ hwr

theorem newWalk_frame (P : World → Prop) (r : Option RecordId) (i : UInt64) (h : P w)
    (hw : ∀ r, P (w.watch r).2) (hs : ∀ v k, P v → P { v with walks := v.walks.push k }) :
    P (w.newWalk r i).2 := by
  cases r with
  | none => exact hs w _ h
  | some r =>
    have hwr := hw r
    simp only [newWalk]
    split
    · rename_i e v hv
      rwa [hv] at hwr
    · rename_i s v hv
      rw [hv] at hwr
      exact hs v _ hwr

/-- What holds of `w`, with a handle registered in it too, and depends on records and heaps only,
holds after an action about observers. -/
theorem run_of_observers (P : World → Prop) (ha : a.concern = .observers) (h : P w)
    (hw : ∀ r, P (w.watch r).2)
    (hs : ∀ u v, v.records = u.records → v.heaps = u.heaps → P u → P v) : P (a.run w) := by
  cases a with
  | newScan r i => exact newScan_frame P r i h hw fun v _ => hs v _ rfl rfl
  | newWalk r i => exact newWalk_frame P r i h hw fun v _ => hs v _ rfl rfl
  | attach r p =>
    exact attach_frame P r p h (hw r) fun v s => hs v _ (records_setSoft p s) (heaps_setSoft p s)
  | _ => cases ha

/-! ### Resets -/

/-- What holds of `w`, with an owner taken out of it too, and is kept when a destruction begins,
holds after a reset. -/
theorem run_of_resets (P : World → Prop) (ha : a.concern = .resets) (h : P w)
    (howner : ∀ i, P (w.setOwner i none))
    (hlink : ∀ g guard i x, a = .resetLink g i → w.writable? g = some guard →
      P (w.setElement guard.record i x))
    (hd : ∀ u r, P u → P ((u.schedule [.forget r]).demolish r)) : P (a.run w) := by
  cases a with
  | resetOwner i =>
    simp only [Action.run, resetOwner]
    split
    · exact h
    · split_ifs
      · exact h
      · exact hd _ _ (howner i)
  | resetLink g i =>
    simp only [Action.run, resetLink]
    split
    · exact h
    · rename_i guard hguard
      split
      · exact h
      · split
        · exact h
        · split_ifs
          · exact h
          · exact hd _ _ (hlink g guard i _ rfl hguard)
  | _ => cases ha

theorem heaps_run_of_resets (ha : a.concern = .resets) : (a.run w).heaps = w.heaps :=
  run_of_resets (·.heaps = w.heaps) ha rfl (fun _ => rfl) (fun _ _ _ _ _ _ => rfl)
    fun _ r hu => (heaps_demolish r).trans hu

end World

end Custody

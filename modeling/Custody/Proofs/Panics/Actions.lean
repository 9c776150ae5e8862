import Custody.Proofs.Ledger.Actions
import Custody.Proofs.Panics.Destruction

/-! Every action does the same in a muffled world. So a whole run comes to the same, but for
panics, as the run in which finalizers that are to give up are replaced by such that do not. -/

namespace Custody

/-! ### Programs that are muffled from the beginning -/

def Seed.muffled : Seed → Seed
  | .node v f => .node v f.muffled
  | s => s

def Plan.muffled (p : Plan) : Plan := { p with seed := fun i => (p.seed i).muffled }

/-- The same action with finalizers that do not give up. -/
def Action.muffled : Action → Action
  | .construct h k p => .construct h k p.muffled
  | .scrap s => .scrap s.muffled
  | .scrapNode v f i p => .scrapNode v f.muffled i p
  | a => a

theorem Seed.item_muffled (s : Seed) : s.muffled.item = s.item.muffled := by cases s <;> rfl

theorem Plan.items_muffled (p : Plan) (n : Nat) :
    p.muffled.items n = (p.items n).map Item.muffled := by
  simp [items, muffled, Seed.item_muffled]

namespace Item

variable (i : Item)

@[simp] theorem back_muffled : i.muffled.back = i.back := by cases i <;> rfl

@[simp] theorem hasBack_muffled : i.muffled.hasBack = i.hasBack := by cases i <;> rfl

@[simp] theorem muffled_withBack (s : Soft) : (i.withBack s).muffled = i.muffled.withBack s := by
  cases i <;> rfl

@[simp] theorem muffled_set (v : Int) : (i.set v).muffled = i.muffled.set v := by cases i <;> rfl

end Item

theorem Heap.muffled_reclaim (h : Heap) : h.reclaim.2.muffled = h.muffled.reclaim.2 := by
  simp [reclaim, Quarantine.reclaim, Quarantine.empty, muffled]

@[simp] theorem Record.muffled_acquire (rec : Record) :
    rec.acquire.muffled = rec.muffled.acquire := rfl

namespace World

variable (w : World)

/-! ### What a program sees -/

theorem owner?_muffled : w.muffled.owner? = w.owner? := rfl

theorem isLent_muffled : w.muffled.isLent = w.isLent := rfl

theorem guard?_muffled (g : Nat) : w.muffled.guard? g = w.guard? g := rfl

theorem writable?_muffled (g : Nat) : w.muffled.writable? g = w.writable? g := rfl

@[simp] theorem rangeLength_muffled (r : Option RecordId) :
    w.muffled.rangeLength r = w.rangeLength r := by
  cases r with
  | none => rfl
  | some r =>
    simp only [rangeLength, getElem?_records_muffled]
    cases w.records[r]? <;> rfl

theorem isRange_muffled (r : RecordId) : w.muffled.isRange r = w.isRange r :=
  w.any_record_muffled (fun _ => rfl) r

theorem reach_muffled (s : Source) : w.muffled.reach s = w.reach s := by
  cases s with
  | owner i => rfl
  | soft p => exact w.watched_muffled (w.soft p)

theorem object_muffled (r : RecordId) : w.muffled.records[r]?.bind Record.object =
    (w.records[r]?.bind Record.object).map (List.map Item.muffled) := by
  rw [getElem?_records_muffled]
  cases w.records[r]? <;> rfl

theorem element?_muffled (guard : Guard) (i : Nat) :
    w.muffled.element? guard i = (w.element? guard i).map Item.muffled := by
  simp only [element?, object_muffled]
  split_ifs
  · cases w.records[guard.record]?.bind Record.object <;> simp
  · rfl

/-! ### Handles -/

theorem watch_muffled (r : RecordId) :
    w.muffled.watch r = ((w.watch r).1, (w.watch r).2.muffled) := by
  simp only [watch, getElem?_records_muffled]
  cases w.records[r]? with
  | none => rfl
  | some rec =>
    have hhandles : rec.muffled.handles = rec.handles := rfl
    dsimp only [Option.map_some]
    rw [hhandles, Record.nextTicket_muffled]
    split_ifs
    · rfl
    · cases rec.nextTicket with
      | error e => rfl
      | ok t =>
        have henrol : (w.modifyRecord r fun rec => rec.enrol.acquire).muffled =
            w.muffled.modifyRecord r fun rec => rec.enrol.acquire :=
          w.muffled_modifyRecord (f := fun rec => rec.enrol.acquire)
            (g := fun rec => rec.enrol.acquire) (fun rec => by simp) r
        dsimp only
        rw [muffled_noteRegistered, henrol]

theorem muffled_setSoft (p : SoftPlace) (s : Soft) :
    (w.setSoft p s).muffled = w.muffled.setSoft p s := by
  cases p <;> rfl

theorem muffled_vacate (p : SoftPlace) : (w.vacate p).muffled = w.muffled.vacate p := by
  cases p <;> rfl

@[simp] theorem soft?_muffled (p : SoftPlace) : w.muffled.soft? p = w.soft? p := by cases p <;> rfl

@[simp] theorem soft_muffled (p : SoftPlace) : w.muffled.soft p = w.soft p := by
  rw [soft, soft, soft?_muffled]

theorem positionIn_muffled (s : Soft) (i : UInt64) :
    w.muffled.positionIn s i = w.positionIn s i := by
  rw [positionIn, positionIn, rangeLength_muffled]

theorem muffled_attach (r : RecordId) (p : SoftPlace) :
    (w.attach r p).2.muffled = (w.muffled.attach r p).2 := by
  simp only [attach, soft?_muffled, watch_muffled]
  split_ifs
  · rcases w.watch r with ⟨e | s, u⟩
    · rfl
    · exact u.muffled_setSoft p s
  · rfl

theorem muffled_newScan (r : Option RecordId) (i : UInt64) :
    (w.newScan r i).2.muffled = (w.muffled.newScan r i).2 := by
  cases r with
  | none => rfl
  | some r =>
    simp only [newScan, watch_muffled]
    rcases w.watch r with ⟨e | s, u⟩
    · rfl
    · dsimp only
      rw [positionIn_muffled]
      rfl

theorem muffled_newWalk (r : Option RecordId) (i : UInt64) :
    (w.newWalk r i).2.muffled = (w.muffled.newWalk r i).2 := by
  cases r with
  | none => rfl
  | some r =>
    simp only [newWalk, watch_muffled]
    rcases w.watch r with ⟨e | s, u⟩
    · rfl
    · dsimp only
      rw [positionIn_muffled]
      rfl

theorem muffled_swapOwners (i j : Nat) : (w.swapOwners i j).muffled = w.muffled.swapOwners i j := by
  unfold swapOwners
  rw [owner?_muffled, isLent_muffled]
  split
  · split_ifs <;> rfl
  · rfl

theorem muffled_swapSofts (p q : SoftPlace) :
    (w.swapSofts p q).muffled = w.muffled.swapSofts p q := by
  unfold swapSofts
  simp only [soft?_muffled]
  rw [isLent_muffled]
  split
  · split_ifs
    · rw [muffled_setSoft, muffled_setSoft]
    · rfl
  · rfl

theorem muffled_discardOwner (i : Nat) : (w.discardOwner i).muffled = w.muffled.discardOwner i := by
  unfold discardOwner
  rw [isLent_muffled]
  split_ifs <;> rfl

theorem muffled_discardSoft (p : SoftPlace) :
    (w.discardSoft p).muffled = w.muffled.discardSoft p := by
  unfold discardSoft
  rw [isLent_muffled, soft_muffled]
  split_ifs
  · rfl
  · rw [muffled_schedule, muffled_vacate]
    rfl

theorem muffled_scrapNode (x : Int64) (f : Finalizer) (i : Nat) (p : SoftPlace) :
    (w.scrapNode x f i p).muffled = w.muffled.scrapNode x f.muffled i p := by
  unfold scrapNode
  rw [isLent_muffled, soft_muffled]
  split_ifs
  · rw [muffled_schedule, muffled_vacate]
    rfl
  · rfl

/-- An owner is emptied in both worlds, or refuses in both. -/
theorem resetOwner_muffled (i : Nat) : (w.muffled.resetOwner i).1 = (w.resetOwner i).1 ∧
    (w.resetOwner i).2.muffled = (w.muffled.resetOwner i).2.muffled := by
  have howner : w.muffled.owner i = w.owner i := rfl
  unfold resetOwner
  rw [howner]
  cases w.owner i with
  | none => exact ⟨rfl, w.muffled_muffled.symm⟩
  | some r =>
    dsimp only
    rw [isBorrowed_muffled]
    split_ifs
    · exact ⟨rfl, w.muffled_muffled.symm⟩
    · refine ⟨rfl, ?_⟩
      have hschedule : ((w.setOwner i none).schedule [.forget r]).muffled =
          (w.muffled.setOwner i none).schedule [.forget r] := muffled_schedule _ _
      exact (muffled_demolish _ r).trans (by rw [hschedule])

/-! ### Guards -/

theorem lend_muffled (s : Source) (a : Access) :
    w.muffled.lend s a = ((w.lend s a).1, (w.lend s a).2.muffled) := by
  unfold lend
  rw [reach_muffled]
  cases w.reach s with
  | error e => rfl
  | ok r =>
    simp only [getElem?_records_muffled]
    cases w.records[r]? with
    | none => rfl
    | some rec =>
      have hborrow : rec.muffled.borrow = rec.borrow := rfl
      dsimp only [Option.map_some]
      rw [Record.alive_muffled, hborrow]
      cases rec.alive with
      | error e => rfl
      | ok items =>
        cases rec.borrow.take a with
        | error e => rfl
        | ok borrow =>
          have hmodify : (w.modifyRecord r fun rec => { rec with borrow := borrow }).muffled =
              w.muffled.modifyRecord r fun rec => { rec with borrow := borrow } :=
            w.muffled_modifyRecord (f := fun rec => { rec with borrow := borrow }) (fun _ => rfl) r
          simp only [Except.map, ← hmodify]
          rfl

theorem muffled_duplicate (g : Nat) : (w.duplicate g).2.muffled = (w.muffled.duplicate g).2 := by
  unfold duplicate
  rw [guard?_muffled]
  split
  · rename_i r source part _
    rw [getElem?_records_muffled]
    cases w.records[r]? with
    | none => rfl
    | some rec =>
      have hborrow : rec.muffled.borrow = rec.borrow := rfl
      simp only [Option.map_some, hborrow]
      cases rec.borrow.share with
      | error e => rfl
      | ok borrow =>
        have hmodify : (w.modifyRecord r fun rec => { rec with borrow := borrow }).muffled =
            w.muffled.modifyRecord r fun rec => { rec with borrow := borrow } :=
          w.muffled_modifyRecord (f := fun rec => { rec with borrow := borrow }) (fun _ => rfl) r
        simp only [← hmodify]
        rfl
  · rfl

theorem muffled_endBorrow (g : Nat) : (w.endBorrow g).muffled = w.muffled.endBorrow g := by
  unfold endBorrow
  rw [guard?_muffled]
  cases w.guard? g with
  | none => rfl
  | some guard =>
    have hmodify := w.muffled_modifyRecord
      (f := fun rec => { rec with borrow := rec.borrow.release guard.access })
      (g := fun rec => { rec with borrow := rec.borrow.release guard.access }) (fun _ => rfl)
        guard.record
    simp only [← hmodify]
    rfl

theorem muffled_narrow (g i : Nat) : (w.narrow g i).muffled = w.muffled.narrow g i := by
  simp only [narrow, isRange_muffled]
  rfl

/-! ### Objects -/

theorem map_mapIdx_muffled {f : Nat → Item → Item}
    (hf : ∀ i item, (f i item).muffled = f i item.muffled) (items : List Item) :
    (items.mapIdx f).map Item.muffled = (items.map Item.muffled).mapIdx f := by
  refine List.ext_getElem? fun i => ?_
  simp only [List.getElem?_map, List.getElem?_mapIdx]
  cases items[i]? <;> simp [hf]

theorem muffled_put (g : Nat) (x : Int) : (w.put g x).muffled = w.muffled.put g x := by
  unfold put
  rw [writable?_muffled]
  cases w.writable? g with
  | none => rfl
  | some guard =>
    refine w.muffled_modifyRecord (fun rec => ?_) guard.record
    simp only [Record.muffled, Option.map_map]
    congr 2
    funext items
    refine map_mapIdx_muffled (fun i item => ?_) items
    split_ifs
    · exact item.muffled_set x
    · rfl

theorem muffled_setElement (r : RecordId) (i : Nat) (item : Item) :
    (w.setElement r i item).muffled = w.muffled.setElement r i item.muffled := by
  refine w.muffled_modifyRecord (fun rec => ?_) r
  simp [Record.muffled, Function.comp_def, List.map_set]

theorem muffled_exchangeLink (g i j : Nat) :
    (w.exchangeLink g i j).muffled = w.muffled.exchangeLink g i j := by
  unfold exchangeLink
  simp only [writable?_muffled, owner?_muffled, isLent_muffled, element?_muffled]
  split
  · rename_i guard o _ _
    cases w.element? guard i with
    | none => rfl
    | some item =>
      simp only [Option.map_some, Item.hasLink_muffled]
      split_ifs
      · rw [Item.link_muffled, ← Item.muffled_withLink, ← muffled_setElement]
        rfl
      · rfl
  · rfl

theorem muffled_exchangeBack (g i : Nat) (p : SoftPlace) :
    (w.exchangeBack g i p).muffled = w.muffled.exchangeBack g i p := by
  unfold exchangeBack
  simp only [writable?_muffled, isLent_muffled, soft?_muffled, element?_muffled]
  split
  · rename_i guard s _ _
    cases w.element? guard i with
    | none => rfl
    | some item =>
      simp only [Option.map_some, Item.hasBack_muffled]
      split_ifs
      · rw [Item.back_muffled, ← Item.muffled_withBack, ← muffled_setElement, muffled_setSoft]
      · rfl
  · rfl

/-- The owner in an element is emptied in both worlds, or refuses in both. -/
theorem resetLink_muffled (g i : Nat) : (w.muffled.resetLink g i).1 = (w.resetLink g i).1 ∧
    (w.resetLink g i).2.muffled = (w.muffled.resetLink g i).2.muffled := by
  unfold resetLink
  rw [writable?_muffled]
  cases w.writable? g with
  | none => exact ⟨rfl, w.muffled_muffled.symm⟩
  | some guard =>
    simp only [element?_muffled]
    cases w.element? guard i with
    | none => exact ⟨rfl, w.muffled_muffled.symm⟩
    | some item =>
      simp only [Option.map_some, Item.link_muffled]
      cases item.link with
      | none => exact ⟨rfl, w.muffled_muffled.symm⟩
      | some r =>
        dsimp only
        rw [isBorrowed_muffled]
        split_ifs
        · exact ⟨rfl, w.muffled_muffled.symm⟩
        · refine ⟨rfl, ?_⟩
          have hschedule :
              ((w.setElement guard.record i (item.withLink none)).schedule [.forget r]).muffled =
              (w.muffled.setElement guard.record i (item.muffled.withLink none)).schedule
                [.forget r] := by
            rw [muffled_schedule, muffled_setElement, Item.muffled_withLink]
            rfl
          exact (muffled_demolish _ r).trans (by rw [hschedule])

/-! ### Heaps -/

theorem allocate_muffled (h : HeapId) (l : Layout) (n : Nat) :
    w.muffled.allocate h l n = (w.allocate h l n).map fun r => (r.1, r.2.muffled) := by
  have harena : w.muffled.arena = w.arena := rfl
  unfold allocate
  rw [harena]
  cases w.arena.allocate l n with
  | error e => rfl
  | ok r =>
    refine congrArg (fun u => Except.ok (r.1, u)) ?_
    exact (muffled_modifyHeap (f := (·.noteAllocated r.1)) (g := (·.noteAllocated r.1))
      { w with arena := r.2 } (fun _ => rfl) h).symm

/-- A new record and an owner of it. -/
theorem muffled_push (rec : Record) (o : Owner) :
    ({ w with records := w.records.push rec, owners := w.owners.push o } : World).muffled =
      { w.muffled with
        records := w.muffled.records.push rec.muffled, owners := w.muffled.owners.push o } := by
  simp [muffled]

theorem muffled_construct (h : HeapId) (k : Kind) (p : Plan) :
    (w.construct h k p).2.muffled = (w.muffled.construct h k p.muffled).2.muffled := by
  have hstop : p.muffled.stop? = p.stop? := rfl
  have hcount : p.muffled.count = p.count := rfl
  rw [construct_eq, construct_eq, hcount]
  cases k.layout p.count.toNat with
  | none => exact w.muffled_muffled.symm
  | some payload =>
    simp only [allocate_muffled]
    cases w.allocate h payload (k.recorded p.count.toNat) with
    | error e => exact w.muffled_muffled.symm
    | ok r =>
      obtain ⟨b, u⟩ := r
      simp only [Except.map, hstop]
      cases p.stop? with
      | some n =>
        have howners : { u.muffled with owners := u.muffled.owners.push none } =
            ({ u with owners := u.owners.push none } : World).muffled := rfl
        dsimp only
        rw [muffled_raise, muffled_raise, howners, muffled_schedule, muffled_schedule,
          muffled_muffled, Plan.items_muffled]
        simp [Function.comp_def, Task.muffled]
      | none =>
        have hrecord :
            (u.newRecord h k p b).muffled = (u.muffled.newRecord h k p.muffled b).muffled := by
          have hconfig : (u.muffled.heaps[h]?.map Heap.config) = u.heaps[h]?.map Heap.config := by
            simp [muffled, Function.comp_def, Heap.muffled]
          have harena : u.muffled.arena = u.arena := rfl
          simp only [newRecord, recordOf, Record.muffled, hconfig, hcount, harena, Option.map_some,
            Plan.items_muffled, List.map_map, List.length_map, Function.comp_def,
            Item.muffled_muffled]
        dsimp only
        have hsize : u.muffled.records.size = u.records.size := Array.size_map
        rw [muffled_push, hrecord, muffled_push u.muffled, muffled_muffled, hsize]

/-! ### Runs -/

theorem muffled_openHeap (c : Config) : (w.openHeap c).2.muffled = (w.muffled.openHeap c).2 := by
  unfold openHeap
  cases hc : Heap.open? c with
  | error e => rfl
  | ok h =>
    have hfresh : h.muffled = h := by
      rw [Heap.open?] at hc
      cases hcheck : c.check with
      | error e => rw [hcheck] at hc; cases hc
      | ok =>
        rw [hcheck] at hc
        cases hc
        rfl
    simp [muffled, hfresh]

theorem muffled_allot (h : HeapId) (l : Layout) (n : Nat) :
    (w.allot h l n).2.muffled = (w.muffled.allot h l n).2 := by
  unfold allot
  rw [allocate_muffled]
  cases w.allocate h l n <;> rfl

theorem muffled_giveBack (b : Nat) (h : HeapId) :
    (w.giveBack b h).muffled = (w.muffled.giveBack b h).muffled := by
  have hloose : w.muffled.loose? b = w.loose? b := rfl
  unfold giveBack
  rw [hloose]
  cases w.loose? b with
  | none => exact w.muffled_muffled.symm
  | some l =>
    have hrelease (u : World) : (u.modifyHeap h (·.release l.block true)).muffled =
        u.muffled.modifyHeap h (·.release l.block.muffled true) :=
      u.muffled_modifyHeap (fun heap => heap.muffled_release l.block true) h
    have hblocks : { w.muffled with blocks := w.muffled.blocks.setIfInBounds b none } =
        ({ w with blocks := w.blocks.setIfInBounds b none } : World).muffled := rfl
    dsimp only
    rw [hrelease, hblocks, hrelease, muffled_muffled]

theorem muffled_reclaim (h : HeapId) : (w.reclaim h).2.muffled = (w.muffled.reclaim h).2 :=
  w.muffled_modifyHeap (g := fun heap => heap.reclaim.2) (fun heap => heap.muffled_reclaim) h

theorem muffled_setDetecting (h : HeapId) (on : Bool) :
    (w.setDetecting h on).2.muffled = (w.muffled.setDetecting h on).2 := by
  have hheap : w.muffled.heaps[h]? = w.heaps[h]?.map Heap.muffled := by simp [muffled]
  unfold setDetecting
  rw [hheap]
  cases w.heaps[h]? with
  | none => rfl
  | some heap =>
    have hdetecting : heap.muffled.setDetecting on =
        (heap.setDetecting on).map fun r => (r.1, r.2.muffled) := by
      by_cases hsize : heap.quarantine.index.size = 0 <;>
        simp [Heap.setDetecting, Quarantine.setDetecting, Heap.muffled, hsize, Except.map]
    dsimp only [Option.map_some]
    rw [hdetecting]
    cases heap.setDetecting on with
    | error e => rfl
    | ok r =>
      exact w.muffled_modifyHeap (f := fun _ => r.2) (g := fun _ => r.2.muffled) (fun _ => rfl) h

theorem muffled_recover : w.recover.2.muffled = w.muffled.recover.2 := by
  have hpending : w.muffled.pending.isEmpty = w.pending.isEmpty := List.isEmpty_map
  unfold recover
  rw [hpending]
  split_ifs <;> rfl

/-- An action does the same in a muffled world, with finalizers that do not give up. -/
theorem muffled_run (a : Action) : (a.run w).muffled = (a.muffled.run w.muffled).muffled := by
  have settle {a : Action} (ha : (a.run w).muffled = a.muffled.run w.muffled) :
      (a.run w).muffled = (a.muffled.run w.muffled).muffled := by rw [← ha, muffled_muffled]
  cases a with
  | construct h k p => exact w.muffled_construct h k p
  | scrap s =>
    simp only [Action.run, Action.muffled, scrap, muffled_schedule, Seed.item_muffled,
      muffled_muffled, List.map_cons, List.map_nil, Task.muffled, Item.muffled_muffled]
  | scrapNode x f i p => exact settle (w.muffled_scrapNode x f i p)
  | giveBack b h => exact w.muffled_giveBack b h
  | resetOwner i => exact (w.resetOwner_muffled i).2
  | resetLink g i => exact (w.resetLink_muffled g i).2
  | raise p =>
    exact (w.muffled_raise p).trans ((w.muffled.muffled_raise p).trans w.muffled_muffled).symm
  | tick => exact w.muffled_tick
  | openHeap c => exact settle (w.muffled_openHeap c)
  | allot h l n => exact settle (w.muffled_allot h l n)
  | reclaim h => exact settle (w.muffled_reclaim h)
  | setDetecting h on => exact settle (w.muffled_setDetecting h on)
  | newScan r i => exact settle (w.muffled_newScan r i)
  | newWalk r i => exact settle (w.muffled_newWalk r i)
  | attach r p => exact settle (w.muffled_attach r p)
  | lend s x => exact settle (congrArg Prod.snd (w.lend_muffled s x)).symm
  | duplicate g => exact settle (w.muffled_duplicate g)
  | recover => exact settle w.muffled_recover
  | swapOwners i j => exact settle (w.muffled_swapOwners i j)
  | swapSofts p q => exact settle (w.muffled_swapSofts p q)
  | discardOwner i => exact settle (w.muffled_discardOwner i)
  | discardSoft p => exact settle (w.muffled_discardSoft p)
  | narrow g i => exact settle (w.muffled_narrow g i)
  | endBorrow g => exact settle (w.muffled_endBorrow g)
  | put g x => exact settle (w.muffled_put g x)
  | exchangeLink g i j => exact settle (w.muffled_exchangeLink g i j)
  | exchangeBack g i p => exact settle (w.muffled_exchangeBack g i p)
  | fill | newOwner | newSoft | moveScan | moveWalk | clearLog => exact settle rfl

variable {u v : World} {w}

theorem Resembles.run {a b : Action} (h : w.Resembles v) (hab : b.muffled = a.muffled) :
    (a.run w).Resembles (b.run v) := by
  rw [Resembles, muffled_run v, muffled_run w, hab, h]

/-- Runs come to the same but for panics if they are the same but for which finalizers give up. -/
theorem Resembles.foldl {as bs : List Action} (h : w.Resembles v)
    (hab : bs.map Action.muffled = as.map Action.muffled) :
    (as.foldl Action.run w).Resembles (bs.foldl Action.run v) := by
  induction as generalizing bs w v with
  | nil =>
    obtain rfl := List.map_eq_nil_iff.mp hab
    exact h
  | cons a as ih =>
    obtain ⟨b, bs, rfl, hb, hbs⟩ := List.map_eq_cons_iff.mp hab
    rw [List.foldl_cons, List.foldl_cons]
    exact ih (h.run hb) hbs

end World

end Custody

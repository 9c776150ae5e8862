import Custody.Proofs.Memory.Deals
import Custody.Proofs.Modes.Steps

/-! Every action does the same to a world and to its twin, and answers the same, as long as
no registration is refused in the world where it is tracked. -/

namespace Custody

open Stake

/-- The action with nothing tracked. -/
def Action.untracked : Action → Action
  | .construct h k p => .construct h k.untracked p
  | a => a

theorem Heap.untracked_setDetecting (h : Heap) (on : Bool) :
    (h.obey (.setDetecting on)).untracked = h.untracked := by
  rw [Heap.obey, Heap.setDetecting]
  cases h.quarantine.setDetecting on <;> rfl

namespace World

variable {v w : World} {r : RecordId}

/-- Two runs that came to twins. -/
structure Parallel (w v : World) : Prop where
  left : w.Reachable
  right : v.Reachable
  twin : w.Twin v

theorem parallel_start (grant : Nat) : (start grant).Parallel (start grant) :=
  ⟨⟨grant, .refl⟩, ⟨grant, .refl⟩, twin_start grant⟩

/-- Nothing is refused where nothing is tracked. -/
theorem Twin.denial_eq_none (h : w.Twin v) (a : Action) : v.denial a = none := by
  refine Option.bind_eq_none_iff.mpr fun r _ => Option.bind_eq_none_iff.mpr fun rec hr => ?_
  obtain ⟨-, hv⟩ | ⟨a, b, -, hv, hab⟩ := h.record_cases r
  · cases hv.symm.trans hr
  · obtain rfl := Option.some.inj (hv.symm.trans hr)
    rw [hab.nextTicket]
    split_ifs <;> rfl

/-! ### Handles -/

theorem Twin.swapOwners (h : w.Twin v) (i j : Nat) :
    (w.swapOwners i j).Twin (v.swapOwners i j) := by
  simp only [World.swapOwners, h.owner?, h.isLent]
  split
  · split_ifs
    · exact h
    · exact (h.setOwner i _).setOwner j _
  · exact h

theorem Twin.swapSofts (h : w.Twin v) (p q : SoftPlace) :
    (w.swapSofts p q).Twin (v.swapSofts p q) := by
  simp only [World.swapSofts, h.isLent]
  obtain ⟨hw, hv⟩ | ⟨a, b, hw, hv, hab⟩ := eq_none_or_eq_some_of_map (h.soft? p)
  · simpa only [hw, hv] using h
  · obtain ⟨hw', hv'⟩ | ⟨c, d, hw', hv', hcd⟩ := eq_none_or_eq_some_of_map (h.soft? q)
    · simpa only [hw, hv, hw', hv'] using h
    · simp only [hw, hv, hw', hv']
      split_ifs
      · exact (h.setSoft p hcd).setSoft q hab
      · exact h

theorem Twin.discardOwner (h : w.Twin v) (i : Nat) :
    (w.discardOwner i).Twin (v.discardOwner i) := by
  simp only [World.discardOwner, h.isLent, h.owner]
  split_ifs
  · exact h
  · exact (h.setOwner i none).schedule rfl

theorem Twin.discardSoft (h : w.Twin v) (p : SoftPlace) :
    (w.discardSoft p).Twin (v.discardSoft p) := by
  simp only [World.discardSoft, h.isLent]
  split_ifs
  · exact h
  · refine (h.vacate p).schedule ?_
    simp only [List.map_cons, List.map_nil, Task.untracked, h.soft p]

theorem Twin.scrapNode (h : w.Twin v) (x : Int64) (f : Finalizer) (i : Nat) (p : SoftPlace) :
    (w.scrapNode x f i p).Twin (v.scrapNode x f i p) := by
  simp only [World.scrapNode, h.isLent, h.owner]
  split_ifs
  · refine ((h.setOwner i none).vacate p).schedule ?_
    simp only [List.map_cons, List.map_nil, Task.untracked, Item.untracked, h.soft p]
  · exact h

theorem Twin.resetOwner (h : w.Twin v) (i : Nat) :
    (v.resetOwner i).1 = (w.resetOwner i).1 ∧ (w.resetOwner i).2.Twin (v.resetOwner i).2 := by
  simp only [World.resetOwner, h.owner]
  cases w.owner i with
  | none => exact ⟨rfl, h⟩
  | some r =>
    simp only [h.isBorrowed]
    split_ifs
    · exact ⟨rfl, h⟩
    · refine ⟨rfl, Twin.demolish (Twin.schedule (h.setOwner i none) rfl) r⟩

/-- Watching the same record gives handles to it, under a ticket or without. -/
theorem Twin.watch (h : w.Twin v) (hr : w.refusal? r = none) :
    ∃ s t w' v', w.watch r = (.ok s, w') ∧ v.watch r = (.ok t, v') ∧
      t.map Watch.untracked = s.map Watch.untracked ∧ w'.Twin v' := by
  obtain ⟨hw, hv⟩ | ⟨a, b, hw, hv, hab⟩ := h.record_cases r
  · exact ⟨none, none, w, v, by simp only [World.watch, hw], by simp only [World.watch, hv], rfl, h⟩
  · by_cases hn : a.handles = 0
    · have hm : b.handles = 0 := hab.handles.trans hn
      exact ⟨none, none, w, v, by simp only [World.watch, hw, hn, if_true],
        by simp only [World.watch, hv, hm, if_true], rfl, h⟩
    · have hm : ¬ b.handles = 0 := by rwa [hab.handles]
      obtain ⟨n, ht⟩ := exists_ticket hw hn hr
      let w' := w.modifyRecord r fun rec => rec.enrol.acquire
      let v' := v.modifyRecord r fun rec => rec.enrol.acquire
      refine ⟨some ⟨r, n⟩, some ⟨r, none⟩, w'.noteRegistered r n, v'.noteRegistered r none,
        by simp only [World.watch, hw, if_neg hn, ht, w'],
        by simp only [World.watch, hv, if_neg hm, hab.nextTicket, v'], rfl, ?_⟩
      refine Twin.noteRegistered (h.modifyRecord r ?_) _ _ _ _
      exact fun _ _ _ _ hcd => hcd.enrol.acquire

theorem Twin.positionIn (h : w.Twin v) {s t : Soft}
    (hst : t.map Watch.untracked = s.map Watch.untracked) (i : UInt64) :
    v.positionIn t i = w.positionIn s i := by
  rw [World.positionIn, World.positionIn, target_eq hst, h.rangeLength]

theorem Twin.isVacant (h : w.Twin v) (p : SoftPlace) :
    decide (v.soft? p = some none) = decide (w.soft? p = some none) := by
  obtain ⟨hw, hv⟩ | ⟨s, t, hw, hv, hst⟩ := eq_none_or_eq_some_of_map (h.soft? p)
  · rw [hw, hv]
  · rw [hw, hv]
    cases s <;> cases t <;> simp at hst ⊢

theorem Twin.attach (h : w.Twin v) {p : SoftPlace} (hd : w.denial (.attach r p) = none) :
    (v.attach r p).1 = (w.attach r p).1 ∧ (w.attach r p).2.Twin (v.attach r p).2 := by
  simp only [World.attach, h.isVacant]
  split_ifs with hp
  · rw [denial, asks, if_pos hp, Option.bind_some] at hd
    obtain ⟨s, t, w', v', hw, hv, hst, h'⟩ := h.watch hd
    simp only [hw, hv, true_and]
    exact h'.setSoft p hst
  · exact ⟨rfl, h⟩

theorem Twin.newScan (h : w.Twin v) {o : Option RecordId} {i : UInt64}
    (hd : w.denial (.newScan o i) = none) :
    (v.newScan o i).1 = (w.newScan o i).1 ∧ (w.newScan o i).2.Twin (v.newScan o i).2 := by
  cases o with
  | none =>
    refine ⟨congrArg Except.ok (size_eq_of_map h.scans), { h with scans := ?_ }⟩
    exact map_push_eq h.scans rfl
  | some r =>
    obtain ⟨s, t, w', v', hw, hv, hst, h'⟩ := h.watch hd
    simp only [World.newScan, hw, hv, h'.positionIn hst]
    refine ⟨congrArg Except.ok (size_eq_of_map h'.scans), { h' with scans := ?_ }⟩
    refine map_push_eq h'.scans ?_
    rw [Scan.untracked, Scan.untracked, hst]

theorem Twin.newWalk (h : w.Twin v) {o : Option RecordId} {i : UInt64}
    (hd : w.denial (.newWalk o i) = none) :
    (v.newWalk o i).1 = (w.newWalk o i).1 ∧ (w.newWalk o i).2.Twin (v.newWalk o i).2 := by
  cases o with
  | none =>
    refine ⟨congrArg Except.ok (size_eq_of_map h.walks), { h with walks := ?_ }⟩
    exact map_push_eq h.walks rfl
  | some r =>
    obtain ⟨s, t, w', v', hw, hv, hst, h'⟩ := h.watch hd
    simp only [World.newWalk, hw, hv, h'.positionIn hst]
    refine ⟨congrArg Except.ok (size_eq_of_map h'.walks), { h' with walks := ?_ }⟩
    refine map_push_eq h'.walks ?_
    simp only [Walk.untracked, Scan.untracked, hst]

/-! ### Looking through handles -/

theorem watches_of_soft {p : SoftPlace} {k : Watch} (h : w.soft p = some k) :
    .watches k ∈ w.stakes := by
  refine watches_mem_stakes.mpr (.inl ⟨p, ?_⟩)
  cases hp : w.soft? p with
  | none => simp [World.soft, hp] at h
  | some s => rwa [World.soft, hp, Option.getD_some, ← Option.some_inj] at h

theorem Parallel.watched (h : w.Parallel v) (p : SoftPlace) :
    v.watched (v.soft p) = w.watched (w.soft p) := by
  obtain ⟨hw, hv⟩ | ⟨k, j, hw, hv, hkj⟩ := eq_none_or_eq_some_of_map (h.twin.soft p)
  · rw [hw, hv]
    rfl
  · rw [hw, hv]
    exact h.twin.watched h.left.sound h.right.sound (watches_of_soft hw) (watches_of_soft hv)
      (congrArg Watch.record hkj :)

theorem Parallel.reach (h : w.Parallel v) (s : Source) : v.reach s = w.reach s := by
  cases s with
  | owner i => rw [World.reach, World.reach, h.twin.owner]
  | soft p => exact h.watched p

theorem Parallel.lend (h : w.Parallel v) (s : Source) (a : Access) :
    (v.lend s a).1 = (w.lend s a).1 ∧ (w.lend s a).2.Twin (v.lend s a).2 := by
  simp only [World.lend, h.reach]
  cases w.reach s with
  | error e => exact ⟨rfl, h.twin⟩
  | ok r =>
    obtain ⟨hw, hv⟩ | ⟨x, y, hw, hv, hxy⟩ := h.twin.record_cases r
    · simpa only [hw, hv, true_and] using h.twin
    · simp only [hw, hv, hxy.borrow]
      obtain ⟨e, hx, hy⟩ | ⟨xs, ys, hx, hy, -⟩ := eq_error_or_eq_ok_of_map hxy.alive
      · simpa only [hx, hy, true_and] using h.twin
      · simp only [hx, hy]
        cases x.borrow.take a with
        | error e => exact ⟨rfl, h.twin⟩
        | ok borrow =>
          have hlent := h.twin.modifyRecord r (f := fun rec => { rec with borrow := borrow })
            (g := fun rec => { rec with borrow := borrow }) fun _ _ _ _ hcd =>
              { hcd with borrow := rfl }
          obtain ⟨hanswer, htwin⟩ := hlent.addGuard ⟨r, a, s, .whole⟩
          exact ⟨congrArg Except.ok hanswer, htwin⟩

/-! ### Guards -/

theorem Twin.duplicate (h : w.Twin v) (g : Nat) :
    (v.duplicate g).1 = (w.duplicate g).1 ∧ (w.duplicate g).2.Twin (v.duplicate g).2 := by
  simp only [World.duplicate, h.guard?]
  split
  · rename_i r source part _
    rw [h.map_record r fun _ _ hab => by rw [hab.borrow]]
    split
    · rename_i borrow _
      have hlent := h.modifyRecord r (f := fun rec => { rec with borrow := borrow })
        (g := fun rec => { rec with borrow := borrow }) fun _ _ _ _ hcd =>
          { hcd with borrow := rfl }
      obtain ⟨hanswer, htwin⟩ := hlent.addGuard ⟨r, .shared, source, part⟩
      exact ⟨congrArg some hanswer, htwin⟩
    · exact ⟨rfl, h⟩
  · exact ⟨rfl, h⟩

theorem Twin.narrow (h : w.Twin v) (g i : Nat) : (w.narrow g i).Twin (v.narrow g i) := by
  refine { h with guards := ?_ }
  simp only [World.narrow, h.guards, h.isRange]

theorem Twin.endBorrow (h : w.Twin v) (g : Nat) : (w.endBorrow g).Twin (v.endBorrow g) := by
  simp only [World.endBorrow, h.guard?]
  split
  · exact h
  · rename_i guard _
    have hm := h.modifyRecord guard.record
      (f := fun rec => { rec with borrow := rec.borrow.release guard.access })
      (g := fun rec => { rec with borrow := rec.borrow.release guard.access })
      fun _ _ _ _ hab => { hab with borrow := by rw [hab.borrow] }
    exact { hm with guards := by rw [h.guards] }

/-- The elements of an object change alike. -/
theorem Twin.edit (h : w.Twin v) (r : RecordId) {f g : List Item → List Item}
    (hfg : ∀ xs ys, ys.map Item.untracked = xs.map Item.untracked →
      (g ys).map Item.untracked = (f xs).map Item.untracked) :
    (w.modifyRecord r fun rec => { rec with object := rec.object.map f }).Twin
      (v.modifyRecord r fun rec => { rec with object := rec.object.map g }) := by
  refine h.modifyRecord r fun a b _ _ hab => { hab with object := ?_ }
  obtain ⟨ha, hb⟩ | ⟨xs, ys, ha, hb, hxy⟩ := eq_none_or_eq_some_of_map hab.object
  · rw [ha, hb]
    rfl
  · rw [ha, hb]
    exact congrArg some (hfg xs ys hxy)

theorem Twin.put (h : w.Twin v) (g : Nat) (x : Int) : (w.put g x).Twin (v.put g x) := by
  simp only [World.put, h.writable?]
  split
  · exact h
  · rename_i guard _
    refine h.edit guard.record fun xs ys hxy => List.ext_getElem? fun i => ?_
    have hi : ys[i]?.map Item.untracked = xs[i]?.map Item.untracked := by
      rw [← List.getElem?_map, ← List.getElem?_map, hxy]
    simp only [List.getElem?_map, List.getElem?_mapIdx]
    obtain ⟨hx, hy⟩ | ⟨a, b, hx, hy, hab⟩ := eq_none_or_eq_some_of_map hi
    · rw [hx, hy]
    · rw [hx, hy]
      refine congrArg some ?_
      split_ifs
      · exact untracked_set hab x
      · exact hab

theorem Twin.setElement (h : w.Twin v) (r : RecordId) (i : Nat) {x y : Item}
    (hxy : y.untracked = x.untracked) : (w.setElement r i x).Twin (v.setElement r i y) := by
  refine h.edit r fun xs ys hs => ?_
  rw [List.map_set, List.map_set, hs, hxy]

theorem Twin.exchangeLink (h : w.Twin v) (g i j : Nat) :
    (w.exchangeLink g i j).Twin (v.exchangeLink g i j) := by
  simp only [World.exchangeLink, h.writable?, h.owner?, h.isLent]
  split
  · rename_i guard o _ _
    obtain ⟨hw, hv⟩ | ⟨x, y, hw, hv, hxy⟩ := eq_none_or_eq_some_of_map (h.element? guard i)
    · simpa only [hw, hv] using h
    · simp only [hw, hv, hasLink_eq hxy, link_eq hxy]
      split_ifs
      · exact (h.setElement guard.record i (untracked_withLink hxy o)).setOwner j _
      · exact h
  · exact h

theorem Twin.exchangeBack (h : w.Twin v) (g i : Nat) (p : SoftPlace) :
    (w.exchangeBack g i p).Twin (v.exchangeBack g i p) := by
  simp only [World.exchangeBack, h.writable?, h.isLent]
  obtain ⟨hw, hv⟩ | ⟨s, t, hw, hv, hst⟩ := eq_none_or_eq_some_of_map (h.soft? p)
  · simp only [hw, hv]
    cases w.writable? g <;> exact h
  · simp only [hw, hv]
    cases w.writable? g with
    | none => exact h
    | some guard =>
      obtain ⟨hw, hv⟩ | ⟨x, y, hw, hv, hxy⟩ := eq_none_or_eq_some_of_map (h.element? guard i)
      · simpa only [hw, hv] using h
      · simp only [hw, hv, hasBack_eq hxy]
        split_ifs
        · exact (h.setElement guard.record i (untracked_withBack hxy hst)).setSoft p (back_eq hxy)
        · exact h

theorem Twin.resetLink (h : w.Twin v) (g i : Nat) :
    (v.resetLink g i).1 = (w.resetLink g i).1 ∧ (w.resetLink g i).2.Twin (v.resetLink g i).2 := by
  simp only [World.resetLink, h.writable?]
  cases w.writable? g with
  | none => exact ⟨rfl, h⟩
  | some guard =>
    obtain ⟨hw, hv⟩ | ⟨x, y, hw, hv, hxy⟩ := eq_none_or_eq_some_of_map (h.element? guard i)
    · simpa only [hw, hv, true_and] using h
    · simp only [hw, hv, link_eq hxy]
      cases x.link with
      | none => exact ⟨rfl, h⟩
      | some r =>
        simp only [h.isBorrowed]
        split_ifs
        · exact ⟨rfl, h⟩
        · refine ⟨rfl, Twin.demolish (Twin.schedule ?_ rfl) r⟩
          exact h.setElement guard.record i (untracked_withLink hxy none)

/-! ### Building -/

theorem Twin.allocate (h : w.Twin v) (i : HeapId) (payload : Layout) (n : Nat) :
    (∃ e, w.allocate i payload n = .error e ∧ v.allocate i payload n = .error e) ∨
      ∃ b w' v', w.allocate i payload n = .ok (b, w') ∧ v.allocate i payload n = .ok (b, v') ∧
        w'.Twin v' := by
  simp only [World.allocate, h.arena]
  cases w.arena.allocate payload n with
  | error e => exact .inl ⟨e, rfl, rfl⟩
  | ok granted =>
    refine .inr ⟨granted.1, _, _, rfl, rfl, ?_⟩
    refine Twin.modifyHeap (w := { w with arena := granted.2 }) (v := { v with arena := granted.2 })
      { h with arena := rfl } i fun x y hxy => ?_
    simp only [Heap.untracked, Heap.mk.injEq, Stats.mk.injEq] at hxy
    obtain ⟨hconfig, -, ha, hd, hb, hy, -⟩ := hxy
    simp [Heap.untracked, Heap.noteAllocated, Stats.allocated, hconfig, ha, hd, hb, hy]

theorem Twin.pushRecord (h : w.Twin v) {a b : Record} (hab : a.Twin b) :
    Twin { w with records := w.records.push a, owners := w.owners.push (some w.records.size) }
      { v with records := v.records.push b, owners := v.owners.push (some v.records.size) } := by
  refine { h with size := ?_, records := fun r => ?_, owners := ?_ }
  · simp only [Array.size_push, h.size]
  · simp only [Array.getElem?_push, h.size]
    split_ifs
    · exact .some hab
    · exact h.records r
  · simp only [h.owners, h.size]

theorem Twin.construct (h : w.Twin v) (i : HeapId) (k : Kind) (p : Plan) :
    (v.construct i k.untracked p).1 = (w.construct i k p).1 ∧
      (w.construct i k p).2.Twin (v.construct i k.untracked p).2 := by
  have hlayout : k.untracked.layout p.count.toNat = k.layout p.count.toNat := rfl
  have hrecorded : k.untracked.recorded p.count.toNat = k.recorded p.count.toNat := rfl
  simp only [World.construct_eq, hlayout, hrecorded]
  cases k.layout p.count.toNat with
  | none => exact ⟨rfl, h⟩
  | some payload =>
    obtain ⟨e, hw, hv⟩ | ⟨b, w', v', hw, hv, h'⟩ := h.allocate i payload (k.recorded p.count.toNat)
    · simp only [hw, hv]
      exact ⟨trivial, h⟩
    · have hsize : v'.owners.size = w'.owners.size := congrArg Array.size h'.owners
      simp only [hw, hv]
      cases p.stop? with
      | some n =>
        refine ⟨congrArg Except.ok hsize, Twin.raise (Twin.schedule ?_ rfl) _⟩
        exact { h' with owners := by rw [h'.owners] }
      | none =>
        have hnew : (w'.newRecord i k p b).Twin (v'.newRecord i k.untracked p b) :=
          ⟨rfl, rfl, rfl, rfl, rfl, rfl, rfl, rfl⟩
        exact ⟨congrArg Except.ok hsize, h'.pushRecord hnew⟩

/-! ### Every action -/

theorem Twin.recover (h : w.Twin v) : v.recover.1 = w.recover.1 ∧ w.recover.2.Twin v.recover.2 := by
  have hempty : v.pending.isEmpty = w.pending.isEmpty := by
    simpa using congrArg List.isEmpty h.pending
  simp only [World.recover, hempty, h.unwinding]
  split_ifs
  · exact ⟨rfl, { h with unwinding := rfl }⟩
  · exact ⟨rfl, h⟩

/-- What an action does to a world, it does to the twin. -/
theorem Parallel.run (h : w.Parallel v) {a : Action} (hd : w.denial a = none) :
    (a.run w).Parallel (a.untracked.run v) := by
  refine ⟨h.left.reaches (.once a), h.right.reaches (.once a.untracked), ?_⟩
  have ht := h.twin
  cases a with
  | openHeap c =>
    simp only [Action.run, Action.untracked, World.openHeap]
    cases Heap.open? c with
    | error e => exact ht
    | ok heap => exact { ht with heaps := map_push_eq ht.heaps rfl }
  | allot i payload n =>
    simp only [Action.run, Action.untracked, World.allot]
    obtain ⟨e, hw, hv⟩ | ⟨b, w', v', hw, hv, h'⟩ := ht.allocate i payload n
    · simpa only [hw, hv] using ht
    · simp only [hw, hv]
      exact { h' with blocks := by rw [h'.blocks] }
  | fill b byte =>
    exact { ht with blocks := by simp only [Action.run, Action.untracked, World.fill, ht.blocks] }
  | giveBack b i =>
    simp only [Action.run, Action.untracked, World.giveBack, World.loose?, ht.blocks]
    split
    · exact ht
    · refine Twin.modifyHeap ?_ i fun _ _ hxy => Heap.untracked_release hxy rfl _ _
      exact { ht with blocks := rfl }
  | reclaim i => exact ht.modifyHeap i fun _ _ hxy => hxy
  | setDetecting i on =>
    simp only [Action.run, Action.untracked, setDetecting_snd]
    refine ht.modifyHeap i fun x y hxy => ?_
    rw [Heap.untracked_setDetecting, Heap.untracked_setDetecting, hxy]
  | newOwner =>
    exact { ht with owners := by simp only [Action.run, Action.untracked, World.newOwner,
      ht.owners] }
  | newSoft => exact { ht with softs := map_push_eq ht.softs rfl }
  | newScan o i => exact (ht.newScan hd).2
  | newWalk o i => exact (ht.newWalk hd).2
  | construct i k p => exact (ht.construct i k p).2
  | scrap s => exact ht.schedule rfl
  | scrapNode x f i p => exact ht.scrapNode x f i p
  | attach r p => exact (ht.attach hd).2
  | swapOwners i j => exact ht.swapOwners i j
  | swapSofts p q => exact ht.swapSofts p q
  | discardOwner i => exact ht.discardOwner i
  | discardSoft p => exact ht.discardSoft p
  | resetOwner i => exact (ht.resetOwner i).2
  | resetLink g i => exact (ht.resetLink g i).2
  | lend s a => exact (h.lend s a).2
  | duplicate g => exact (ht.duplicate g).2
  | narrow g i => exact ht.narrow g i
  | endBorrow g => exact ht.endBorrow g
  | put g x => exact ht.put g x
  | exchangeLink g i j => exact ht.exchangeLink g i j
  | exchangeBack g i p => exact ht.exchangeBack g i p
  | moveScan i m =>
    refine { ht with scans := ?_ }
    simp only [Action.run, Action.untracked, World.moveScan]
    refine map_modify_eq ht.scans (fun x y hxy => ?_) i
    simp only [Scan.untracked, Scan.mk.injEq] at hxy ⊢
    exact ⟨hxy.1, by rw [hxy.2]⟩
  | moveWalk i m =>
    refine { ht with walks := ?_ }
    simp only [Action.run, Action.untracked, World.moveWalk]
    refine map_modify_eq ht.walks (fun x y hxy => ?_) i
    simp only [Walk.untracked, Scan.untracked, Walk.mk.injEq, Scan.mk.injEq] at hxy ⊢
    exact ⟨hxy.1, hxy.2.1, by rw [hxy.2.2]⟩
  | raise p => exact ht.raise p
  | recover => exact ht.recover.2
  | clearLog => exact { ht with log := rfl }
  | tick => exact ht.tick h.left.sound h.right.sound hd (ht.denial_eq_none .tick)

end World

end Custody

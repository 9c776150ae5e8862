import Custody.Proofs.Ledger.Effects

/-! What an action does to the book of guards and to the tasks that are pending. Most actions
change neither. Otherwise a guard is added under the next number, or some guards go. -/

namespace Custody

/-- Whether an action changes neither the guards nor the pending tasks. -/
def Action.IsQuiet : Action → Prop
  | .construct .. | .scrap _ | .scrapNode .. | .discardOwner _ | .discardSoft _ | .resetOwner _
  | .resetLink ..
  | .lend .. | .duplicate _ | .narrow .. | .endBorrow _ | .tick => False
  | _ => True

namespace World

variable {w : World}

theorem mem_guards {g : Nat} {guard : Guard} (h : w.guard? g = some guard) :
    (g, guard) ∈ w.guards := by
  obtain ⟨l₁, l₂, hl, -⟩ := List.lookup_eq_some_iff.mp h
  simp [hl]

theorem guard?_of_writable? {g : Nat} {guard : Guard} (h : w.writable? g = some guard) :
    w.guard? g = some guard := (Option.filter_eq_some_iff.mp h).1

theorem keeps_watch (r : RecordId) : w.Keeps (w.watch r).2 := by
  unfold watch
  split
  · exact .refl w
  · split_ifs
    · exact .refl w
    · split
      · exact .refl w
      · rename_i t _
        have hm : w.Keeps (w.modifyRecord r fun rec => rec.enrol.acquire) := ⟨rfl, rfl⟩
        exact hm.trans (keeps_noteRegistered r t)

theorem keeps_setSoft (p : SoftPlace) (s : Soft) : w.Keeps (w.setSoft p s) := by
  cases p <;> exact ⟨rfl, rfl⟩

theorem keeps_run_of_heaps {a : Action} (ha : a.concern = .heaps) : w.Keeps (a.run w) := by
  cases a with
  | openHeap | giveBack | setDetecting =>
    simp only [Action.run, openHeap, giveBack, setDetecting]
    split <;> exact ⟨rfl, rfl⟩
  | allot h l n =>
    simp only [Action.run, allot]
    split
    · exact .refl w
    · rename_i b v hv
      obtain ⟨arena, -, rfl⟩ := allocate_eq_ok hv
      exact ⟨rfl, rfl⟩
  | fill | reclaim => exact ⟨rfl, rfl⟩
  | _ => cases ha

theorem keeps_run_of_elements {a : Action} (ha : a.concern = .elements) : w.Keeps (a.run w) := by
  cases a with
  | put | exchangeLink =>
    simp only [Action.run, put, exchangeLink]
    (repeat' split) <;> exact ⟨rfl, rfl⟩
  | exchangeBack g i p =>
    simp only [Action.run, exchangeBack]
    split
    · rename_i guard s _ _
      split
      · rename_i item _
        split_ifs
        · have hset : w.Keeps (w.setElement guard.record i (item.withBack s)) := ⟨rfl, rfl⟩
          exact hset.trans (keeps_setSoft p _)
        · exact .refl w
      · exact .refl w
    · exact .refl w
  | _ => cases ha

theorem keeps_run {a : Action} (ha : a.IsQuiet) : w.Keeps (a.run w) := by
  cases a with
  | openHeap | allot | fill | giveBack | reclaim | setDetecting => exact keeps_run_of_heaps rfl
  | put | exchangeLink | exchangeBack => exact keeps_run_of_elements rfl
  | newScan r i =>
    exact newScan_frame w.Keeps r i (.refl w) keeps_watch fun _ _ hv => ⟨hv.book, hv.pending⟩
  | newWalk r i =>
    exact newWalk_frame w.Keeps r i (.refl w) keeps_watch fun _ _ hv => ⟨hv.book, hv.pending⟩
  | attach r p =>
    exact attach_frame w.Keeps r p (.refl w) (keeps_watch r) fun _ s hv =>
      hv.trans (keeps_setSoft p s)
  | swapSofts p q =>
    simp only [Action.run, swapSofts]
    split
    · split_ifs
      · exact (keeps_setSoft p _).trans (keeps_setSoft q _)
      · exact .refl w
    · exact .refl w
  | raise p => exact keeps_raise p
  | swapOwners | recover =>
    simp only [Action.run, swapOwners, recover]
    (repeat' split) <;> exact ⟨rfl, rfl⟩
  | newOwner | newSoft | moveScan | moveWalk | clearLog => exact ⟨rfl, rfl⟩
  | _ => cases ha

theorem book_construct (h : HeapId) (k : Kind) (p : Plan) :
    (w.construct h k p).2.book = w.book := by
  rw [construct_eq]
  split
  · rfl
  · split
    · rfl
    · rename_i b v hv
      obtain ⟨arena, -, hv⟩ := allocate_eq_ok hv
      have hvg : v.book = w.book := by rw [hv]; rfl
      split
      · exact (keeps_raise _).book.trans hvg
      · exact hvg

theorem book_vacate (p : SoftPlace) : (w.vacate p).book = w.book := by cases p <;> rfl

theorem book_scrapNode (x : Int64) (f : Finalizer) (i : Nat) (p : SoftPlace) :
    (w.scrapNode x f i p).book = w.book := by
  unfold scrapNode
  split_ifs
  · exact book_vacate p
  · rfl

theorem book_discardSoft (p : SoftPlace) : (w.discardSoft p).book = w.book := by
  unfold discardSoft
  split_ifs
  · rfl
  · exact book_vacate p

/-- What the guards can be after an action: some of them are gone, or there is one more,
under the next number. -/
theorem book_run (a : Action) :
    (∃ guard, (a.run w).book = ((w.nextGuard, guard) :: w.guards, w.nextGuard + 1)) ∨
      ((a.run w).guards.map Prod.fst).Sublist (w.guards.map Prod.fst) ∧
        (a.run w).nextGuard = w.nextGuard := by
  have hsame {v : World} (h : v.book = w.book) :
      (∃ guard, v.book = ((w.nextGuard, guard) :: w.guards, w.nextGuard + 1)) ∨
        (v.guards.map Prod.fst).Sublist (w.guards.map Prod.fst) ∧ v.nextGuard = w.nextGuard :=
    .inr ⟨by rw [guards_of_book h], congrArg Prod.snd h⟩
  cases a with
  | lend s a =>
    simp only [Action.run, lend]
    split
    · exact hsame rfl
    · split
      · exact hsame rfl
      · split
        · exact hsame rfl
        · exact hsame rfl
        · exact .inl ⟨_, rfl⟩
  | duplicate g =>
    simp only [Action.run, duplicate]
    split
    · split
      · exact .inl ⟨_, rfl⟩
      · exact hsame rfl
    · exact hsame rfl
  | narrow g i =>
    refine .inr ⟨?_, rfl⟩
    have hkeys : (Prod.fst ∘ fun h : Nat × Guard => if h.1 = g then
        (g, { h.2 with part := h.2.part.narrow (w.isRange h.2.record) i }) else h) = Prod.fst := by
      funext h
      simp only [Function.comp_apply]
      split_ifs with hg
      · exact hg.symm
      · rfl
    simp only [Action.run, narrow, List.map_map, hkeys]
    exact .refl _
  | endBorrow g =>
    simp only [Action.run, endBorrow]
    split
    · exact hsame rfl
    · exact .inr ⟨List.filter_sublist.map _, rfl⟩
  | construct h k p => exact hsame (book_construct h k p)
  | scrap s => exact hsame rfl
  | scrapNode x f i p => exact hsame (book_scrapNode x f i p)
  | discardOwner i =>
    simp only [Action.run, discardOwner]
    split_ifs <;> exact hsame rfl
  | discardSoft p => exact hsame (book_discardSoft p)
  | resetOwner | resetLink =>
    simp only [Action.run, resetOwner, resetLink]
    (repeat' split) <;> first | exact hsame rfl | exact hsame (book_demolish _)
  | tick => exact hsame book_tick
  | _ => exact hsame (keeps_run (by trivial)).book

end World

end Custody

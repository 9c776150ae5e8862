import Custody.Proofs.Ledger.Arrivals
import Custody.Proofs.Ledger.Borrows
import Custody.Proofs.Ledger.Elements

/-! What each action does to the ledger: one `Holding.Step` for every record. So
`World.Sound` holds in every reachable world, inside destructors too. -/

namespace Custody

open Stake

namespace World

variable {w : World} {r : RecordId} {rec : Record}

theorem stakes_run_of_heaps {a : Action} (ha : a.concern = .heaps) :
    (a.run w).stakes = w.stakes := by
  cases a with
  | allot h l n =>
    simp only [Action.run, allot]
    split
    · rfl
    · rename_i b v hv
      obtain ⟨arena, -, rfl⟩ := allocate_eq_ok hv
      rfl
  | openHeap | giveBack | setDetecting =>
    simp only [Action.run, openHeap, giveBack, setDetecting]
    split <;> rfl
  | fill | reclaim => rfl
  | _ => cases ha

theorem step_run_of_heaps {a : Action} (ha : a.concern = .heaps) (q : RecordId) :
    Holding.Step q (w.holding q) ((a.run w).holding q) :=
  step_rest (records_run_of_heaps ha) (stakes_run_of_heaps ha) (keeps_run_of_heaps ha).book q

/-- Every action does one step to the holding of every record. -/
theorem step_run (h : w.Sound) (a : Action) (q : RecordId) :
    Holding.Step q (w.holding q) ((a.run w).holding q) := by
  cases a with
  | openHeap | allot | fill | giveBack | reclaim | setDetecting => exact step_run_of_heaps rfl q
  | newOwner =>
    have hs : w.newOwner.2.stakes = w.stakes := (stakes_pushOwner none).trans (zero_add _)
    exact step_rest (w := w) (v := w.newOwner.2) rfl hs rfl q
  | newSoft =>
    have hs : w.newSoft.2.stakes = w.stakes := (stakes_pushSoft none).trans (zero_add _)
    exact step_rest (w := w) (v := w.newSoft.2) rfl hs rfl q
  | newScan r i => exact step_newScan r i q
  | newWalk r i => exact step_newWalk r i q
  | construct k kind p => exact step_construct h k kind p q
  | scrap s => exact step_rest (w := w) (v := w.scrap s) rfl (stakes_scrap s) rfl q
  | scrapNode x f i p =>
    exact step_rest (records_scrapNode x f i p) (stakes_scrapNode x f i p)
      (book_scrapNode x f i p) q
  | attach r p => exact step_attach r p q
  | swapOwners i j =>
    refine step_rest ?_ (stakes_swapOwners i j) ?_ q
    all_goals
      simp only [swapOwners]
      split
      · split_ifs <;> rfl
      · rfl
  | swapSofts p r =>
    exact step_rest (records_swapSofts p r) (stakes_swapSofts p r)
      (keeps_run (a := .swapSofts p r) trivial).book q
  | discardOwner i =>
    refine step_rest ?_ (stakes_discardOwner i) ?_ q
    all_goals
      simp only [discardOwner]
      split_ifs <;> rfl
  | discardSoft p =>
    exact step_rest (records_discardSoft p) (stakes_discardSoft p) (book_discardSoft p) q
  | resetOwner i => exact step_resetOwner h i q
  | resetLink g i => exact step_resetLink h g i q
  | lend s a => exact step_lendTo s a q
  | duplicate g => exact step_duplicate g q
  | narrow g i => exact step_narrow g i q
  | endBorrow g => exact step_endBorrow h g q
  | put g x => exact step_put g x q
  | exchangeLink g i j => exact step_exchangeLink g i j q
  | exchangeBack g i p => exact step_exchangeBack g i p q
  | moveScan i m => exact step_rest (w := w) (v := w.moveScan i m) rfl (stakes_moveScan i m) rfl q
  | moveWalk i m => exact step_rest (w := w) (v := w.moveWalk i m) rfl (stakes_moveWalk i m) rfl q
  | raise p => exact step_rest (records_raise p) (stakes_raise p) (keeps_raise p).book q
  | recover =>
    refine step_rest ?_ ?_ ?_ q
    all_goals
      simp only [Action.run, recover]
      split_ifs <;> rfl
  | clearLog => exact .rest _
  | tick => exact step_tick h q

/-- Every action keeps the ledger sound. -/
theorem Sound.run (h : w.Sound) (a : Action) : (a.run w).Sound where
  holds r := (h.holds r).step (step_run h a r)
  distinct := by
    obtain ⟨guard, hb⟩ | ⟨hsub, -⟩ := book_run (w := w) a
    · have hg : (a.run w).guards = (w.nextGuard, guard) :: w.guards := congrArg Prod.fst hb
      rw [hg, List.map_cons, List.nodup_cons]
      refine ⟨fun hmem => ?_, h.distinct⟩
      obtain ⟨g, hg, heq⟩ := List.mem_map.mp hmem
      have := h.numbered g hg
      omega
    · exact h.distinct.sublist hsub
  numbered g hg := by
    obtain ⟨guard, hb⟩ | ⟨hsub, hn⟩ := book_run (w := w) a
    · have hgs : (a.run w).guards = (w.nextGuard, guard) :: w.guards := congrArg Prod.fst hb
      have hn : (a.run w).nextGuard = w.nextGuard + 1 := congrArg Prod.snd hb
      rw [hgs, List.mem_cons] at hg
      obtain rfl | hg := hg
      · omega
      · have := h.numbered g hg
        omega
    · obtain ⟨g', hg', heq⟩ := List.mem_map.mp (hsub.subset (List.mem_map_of_mem hg))
      have := h.numbered g' hg'
      omega

theorem Sound.reaches {v : World} (h : w.Sound) (hv : w.Reaches v) : v.Sound := by
  induction hv with
  | refl => exact h
  | step a _ ih => exact ih.run a

theorem reachable_foldl (grant : Nat) (as : List Action) :
    (as.foldl Action.run (start grant)).Reachable := ⟨grant, reaches_foldl _ as⟩

theorem Reachable.sound (h : w.Reachable) : w.Sound := by
  obtain ⟨grant, h⟩ := h
  exact (sound_start grant).reaches h

theorem Reachable.measured (h : w.Reachable) (hr : w.records[r]? = some rec) : rec.Measured := by
  obtain ⟨grant, h⟩ := h
  induction h generalizing rec with
  | refl => simp [start] at hr
  | @step v a hv ih =>
    exact (step_run (Reachable.sound ⟨grant, hv⟩) a r).measured (fun old => ih) hr

theorem Reachable.formed (h : w.Reachable) {b : Block} (hr : w.records[r]? = some rec)
    (hb : rec.block = some b) : b.Formed := by
  obtain ⟨grant, h⟩ := h
  induction h generalizing rec b with
  | refl => simp [start] at hr
  | @step v a hv ih =>
    exact (step_run (Reachable.sound ⟨grant, hv⟩) a r).formed
      (fun _ _ hold hob => ih hold hob) hr hb

theorem Reachable.filled (h : w.Reachable) (hr : w.records[r]? = some rec) : rec.Filled := by
  obtain ⟨grant, h⟩ := h
  induction h generalizing rec with
  | refl => simp [start] at hr
  | @step v a hv ih =>
    exact (step_run (Reachable.sound ⟨grant, hv⟩) a r).filled (fun _ => ih) hr

/-- What is gone stays gone, however long the program goes on. -/
theorem Sound.later {v : World} (h : w.Sound) (hv : w.Reaches v) (hr : w.records[r]? = some rec) :
    ∃ new, v.records[r]? = some new ∧ rec.Later new := by
  induction hv with
  | refl => exact ⟨rec, hr, .refl rec⟩
  | @step u a hu ih =>
    obtain ⟨mid, hmid, hlater⟩ := ih
    obtain ⟨new, hnew, hstep⟩ := (step_run (h.reaches hu) a r).later hmid
    exact ⟨new, hnew, hlater.trans hstep⟩

end World

end Custody

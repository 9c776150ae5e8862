import Custody.Proofs.Heap.Notices
import Custody.Proofs.Locality.Sealing

/-! Tasks worked off down to those that wait. Whatever moment of it is looked at, the tasks on top
are sealed, all that is not doomed is spared, and only observers of doomed records are told. -/

namespace Custody

namespace World

variable {D E : RecordId → Prop} {t : Task} {ts rest : List Task} {u v w : World} {q : RecordId}

/-- Some tasks on top of `rest` are done, one after the other, which leads from `w` to `v`. -/
inductive Works (rest : List Task) (w : World) : World → Prop where
  | refl : Works rest w w
  | tick {v : World} {t : Task} {ts : List Task} : Works rest w v → v.pending = t :: ts ++ rest →
    Works rest w v.tick

theorem Works.reaches (h : w.Works rest v) : w.Reaches v := by
  induction h with
  | refl => exact .refl
  | tick _ _ ih => exact ih.step .tick

theorem Works.book (h : w.Works rest v) : v.book = w.book := by
  induction h with
  | refl => rfl
  | tick _ _ ih => exact book_tick.trans ih

theorem Works.hands (h : w.Works rest v) : v.hands = w.hands := by
  induction h with
  | refl => rfl
  | tick _ _ ih => exact hands_tick.trans ih

theorem works_below (u : World) (n : Nat) (rest : List Task) :
    (u.below rest).Works rest ((tick^[n] u).below rest) := by
  induction n with
  | zero => exact .refl
  | succ n ih =>
    rw [Function.iterate_succ_apply']
    cases hp : (tick^[n] u).pending with
    | nil => rwa [tick_of_idle hp]
    | cons t ts =>
      have hbelow : ((tick^[n] u).below rest).pending = t :: ts ++ rest := by rw [below, hp]
      rw [← tick_below (by simp [hp])]
      exact ih.tick hbelow

/-- The tasks on top come to an end. -/
theorem exists_works (hp : w.pending = ts ++ rest) :
    ∃ v, w.Works rest v ∧ v.pending = rest ∧ (rest = [] → v = w.drain) := by
  set u : World := { w with pending := ts } with hu
  have hw : w = u.below rest := by
    rw [below, hu, ← hp]
  obtain ⟨n, hn⟩ := drain_eq_iterate u
  refine ⟨u.drain.below rest, ?_, ?_, ?_⟩
  · rw [hw, hn]
    exact works_below u n rest
  · simp [below, pending_drain]
  · rintro rfl
    rw [hw, below_nil, below_nil]

/-- Whatever is done, the tasks stay sealed and all else is spared. -/
theorem Sealed.works (h : w.Sound) (hs : w.Sealed D E ts rest) (hv : w.Works rest v) :
    (∃ us, v.Sealed D E us rest) ∧ Spared D E w v := by
  induction hv with
  | refl => exact ⟨⟨ts, hs⟩, .refl D E w⟩
  | @tick v t ts' hv hp ih =>
    obtain ⟨⟨us, hus⟩, hspared⟩ := ih
    obtain rfl : us = t :: ts' := List.append_cancel_right (hus.pending.symm.trans hp)
    obtain ⟨hsealed, hstep⟩ := hus.tick (h.reaches hv.reaches)
    exact ⟨hsealed, hspared.trans hstep⟩

/-- From `w` to `v` nobody is told, or all live observers of one doomed record are. -/
def TellsOnly (D : RecordId → Prop) (w v : World) : Prop :=
  v.invalidations = w.invalidations ∨
    ∃ r, D r ∧ ∀ h, v.invalidations h = w.invalidations h + w.notice r h

theorem Sealed.tells (h : w.Sound) (hs : w.Sealed D E (t :: ts) rest) : TellsOnly D w w.tick := by
  have hp : w.pending = t :: (ts ++ rest) := hs.pending
  have hcount (k : HeapId) := h.invalidations_run .tick k
  cases htold : w.told? .tick with
  | none =>
    refine .inl (funext fun k => ?_)
    rw [show w.tick.invalidations k = _ from hcount k, htold]
    rfl
  | some r =>
    refine .inr ⟨r, ?_, fun k => ?_⟩
    · have hwithin := hs.within t (by simp)
      simp only [told?, hp] at htold
      split at htold
      · rename_i hq
        obtain ⟨rfl, -⟩ := List.cons.inj hq
        split_ifs at htold
        obtain rfl := Option.some.inj htold
        exact hwithin _ rfl
      · rename_i hq
        obtain ⟨rfl, -⟩ := List.cons.inj hq
        obtain rfl := Option.some.inj htold
        exact hwithin
      · cases htold
    · rw [show w.tick.invalidations k = _ from hcount k, htold]
      rfl

end World

end Custody

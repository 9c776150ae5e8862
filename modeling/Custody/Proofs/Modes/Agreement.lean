import Custody.Proofs.Modes.Calls
import Custody.Session.Run

/-! Whether objects are tracked makes no difference to a program but for what it asks of
tracking itself. The same calls are made on a fresh world twice, once with all objects
tracked and once with none; as long as the first run is refused no registration, the two
answer alike, and they destroy and allocate alike (`modes_agree`). -/

namespace Custody

/-- The allocations and deallocations of a heap, and its blocks and bytes in use. -/
def Heap.usage (h : Heap) : Nat × Nat × Nat × Nat :=
  (h.stats.allocations, h.stats.deallocations, h.stats.liveBlocks, h.stats.liveBytes)

namespace Call

/-- One call. After it everything pending is done, and a panic that was unwinding is its
result. -/
def step (mode : Mode) (c : Call) : Act (Except Fault Answer) := do
  let result ← (Op.call mode c).run
  match ← Act.recoverAll with
  | some p => return .error (.panicked p)
  | none => return result

/-- Calls in order; what each one comes to. -/
def steps (mode : Mode) (cs : List Call) : Act (List (Except Fault Answer)) := cs.mapM (step mode)

theorem matches_recoverAll : Act.Matches Eq Act.recoverAll Act.recoverAll :=
  Act.matches_drain.bind fun _ _ _ => Act.matches_recover

theorem matches_step (c : Call) :
    Act.Matches (SameBy (Except.map Answer.untracked)) (step .tracked c) (step .untracked c) := by
  refine Act.Matches.bind (Op.matches_call c) fun x y hxy => ?_
  refine matches_recoverAll.bind ?_
  rintro p _ rfl
  cases p with
  | some p => exact Act.matches_pure rfl
  | none =>
    refine Act.matches_pure ?_
    cases hxy with
    | ok h => exact congrArg Except.ok h
    | error fault => rfl

theorem matches_steps (cs : List Call) :
    Act.Matches (SameBy (List.map (Except.map Answer.untracked))) (steps .tracked cs)
      (steps .untracked cs) := by
  induction cs with
  | nil => exact Act.matches_pure rfl
  | cons c cs ih =>
    rw [steps, steps, List.mapM_cons, List.mapM_cons]
    refine (matches_step c).bind fun x y hxy => ?_
    refine ih.bind fun xs ys hs => Act.matches_pure ?_
    rw [SameBy, List.map_cons, List.map_cons, hxy, hs]

end Call

open World

/-- For every sequence of calls, made from a fresh world on with tracked objects and again with
untracked ones. If the first run is refused no registration, then each call gives the same
value or the same fault in both, but for the tickets in a value. After them all objects
hold the same, finalizers have reported the same in the same order, and every heap counts
the same allocations and deallocations, and the same blocks and bytes in use. A beginning of a
sequence is a sequence, so this holds after each call. -/
theorem modes_agree {grant : Nat} {cs : List Call} {answers answers' : List (Except Fault Answer)}
    {w v : World} (hw : (Call.steps .tracked cs).run (start grant) = (answers, w))
    (hv : (Call.steps .untracked cs).run (start grant) = (answers', v))
    (hd : (Call.steps .tracked cs).denials (start grant) = []) :
    answers'.map (Except.map Answer.untracked) = answers.map (Except.map Answer.untracked) ∧
    (∀ r : RecordId, (v.records[r]?.bind Record.object).map (List.map Item.untracked) =
      (w.records[r]?.bind Record.object).map (List.map Item.untracked)) ∧
    v.log = w.log ∧
    ∀ h : HeapId, v.heaps[h]?.map Heap.usage = w.heaps[h]?.map Heap.usage := by
  obtain ⟨hanswers, htwin⟩ := Call.matches_steps cs _ _ (parallel_start grant) hd
  rw [hw, hv] at hanswers htwin
  refine ⟨hanswers, htwin.object?, htwin.log, fun h => ?_⟩
  obtain ⟨hx, hy⟩ | ⟨x, y, hx, hy, hxy⟩ := eq_none_or_eq_some_of_map (map_getElem? htwin.heaps h)
  · rw [hx, hy]
  · rw [hx, hy]
    exact congrArg some (congrArg Heap.usage hxy :)

/-- A node is destroyed as its owner goes, its observer is left behind; an array loses its
owner while it is borrowed, and goes with the last handle. -/
def mixedCalls : List Call :=
  [.build .attempt 0 .one .node ⟨1, fun _ => .node 7 ⟨2⟩, none⟩,
    .watch .attempt 0, .copySoft .attempt (.soft 0), .observe 0 0,
    .lend (.soft (.soft 0)) .exclusive, .put 1 8, .lend (.owner 0) .shared, .endBorrow 1,
    .dropOwner 0, .ask (.read .attempt (.soft (.soft 1))), .dropSoft (.soft 0),
    .build .insist 0 .array .int ⟨3, fun i => .int i.toInt64, none⟩,
    .watch .attempt 1, .openScan (.soft 3) 1, .values 0, .lend (.soft (.scan 0)) .shared,
    .dropOwner 1, .ask (.isValid (.scan 0)), .ask (.guarded 2), .endBorrow 2, .dropScan 0,
    .dropSoft (.soft 3)]

theorem modes_agree_mixedCalls :
    (Call.steps .tracked mixedCalls).denials (start defaultGrant) = [] ∧
      ((Call.steps .untracked mixedCalls).run (start defaultGrant)).1.map
        (Except.map Answer.untracked) =
          ((Call.steps .tracked mixedCalls).run (start defaultGrant)).1.map
            (Except.map Answer.untracked) ∧
      ((Call.steps .untracked mixedCalls).run (start defaultGrant)).2.log =
        ((Call.steps .tracked mixedCalls).run (start defaultGrant)).2.log := by
  have hd : (Call.steps .tracked mixedCalls).denials (start defaultGrant) = [] := by decide +kernel
  obtain ⟨hanswers, -, hlog, -⟩ := modes_agree rfl rfl hd
  exact ⟨hd, hanswers, hlog⟩

end Custody

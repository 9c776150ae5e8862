import Custody.Heap.Basic
import Custody.Proofs.Heap.Ranges

/-! Runs of a heap. Of all that is asked of a heap its quarantine is asked for what the
heap's configuration passes on, so the quarantine of a heap has a run of its own. -/

namespace Custody

namespace Heap

/-- What can be asked of a heap. -/
inductive Request where
  | allocated (b : Block)
  | release (b : Block) (keep : Bool)
  | reclaim
  | setDetecting (on : Bool)
  | registered
  | invalidated (n : Nat)
  deriving DecidableEq

/-- Does what is asked; a switch of detection that is refused leaves all as it is. -/
def obey (h : Heap) : Request → Heap
  | .allocated b => h.noteAllocated b
  | .release b keep => h.release b keep
  | .reclaim => h.reclaim.2
  | .setDetecting on =>
    match h.setDetecting on with
    | .ok (_, h') => h'
    | .error _ => h
  | .registered => h.noteRegistered
  | .invalidated n => h.noteInvalidated n

def obeyAll (h : Heap) (rs : List Request) : Heap := rs.foldl obey h

/-- What a request to a heap asks of its quarantine. -/
def passed (h : Heap) : Request → List Quarantine.Request
  | .release b keep => if keep && h.config.keeps then [.push (h.prepare b)] else []
  | .reclaim => [.reclaim]
  | .setDetecting on => [.setDetecting on]
  | .allocated _ | .registered | .invalidated _ => []

/-- A block that a heap keeps overlaps none that it has kept so far. -/
def Admits (h : Heap) (rs : List Request) : Prop := h.quarantine.Admits (rs.flatMap h.passed)

/-- A block came in to be kept while detection was in effect, and has not been let go
since. -/
def Recorded (h : Heap) (rs : List Request) (b : Block) : Prop :=
  LastedSince (fun before => (h.obeyAll before).detects = true) (.release b true) (· = .reclaim) rs

variable {h : Heap} {rs ss : List Request} {r : Request} {b : Block}

@[simp] theorem obeyAll_nil : h.obeyAll [] = h := rfl

@[simp] theorem obeyAll_cons : h.obeyAll (r :: rs) = (h.obey r).obeyAll rs := rfl

@[simp] theorem obeyAll_append : h.obeyAll (rs ++ ss) = (h.obeyAll rs).obeyAll ss :=
  List.foldl_append

/-! ### The run of the quarantine -/

theorem config_obey (r : Request) : (h.obey r).config = h.config := by
  cases r with
  | allocated | reclaim | registered | invalidated => rfl
  | release b keep =>
    simp only [obey, release]
    split_ifs <;> rfl
  | setDetecting on =>
    simp only [obey, setDetecting]
    cases h.quarantine.setDetecting on <;> rfl

theorem quarantine_obey (r : Request) :
    (h.obey r).quarantine = h.quarantine.obeyAll (h.passed r) := by
  cases r with
  | allocated | registered | invalidated => rfl
  | reclaim => rfl
  | release b keep =>
    simp only [obey, release, passed]
    split_ifs <;> rfl
  | setDetecting on =>
    simp only [obey, setDetecting, passed, Quarantine.obeyAll_singleton, Quarantine.obey]
    cases h.quarantine.setDetecting on <;> rfl

theorem passed_congr {k : Heap} (hk : k.config = h.config) : k.passed = h.passed := by
  funext r
  cases r <;> simp [passed, prepare, hk]

theorem config_obeyAll (rs : List Request) : (h.obeyAll rs).config = h.config := by
  induction rs generalizing h with
  | nil => rfl
  | cons r rs ih => rw [obeyAll_cons, ih, config_obey]

theorem quarantine_obeyAll (rs : List Request) :
    (h.obeyAll rs).quarantine = h.quarantine.obeyAll (rs.flatMap h.passed) := by
  induction rs generalizing h with
  | nil => rfl
  | cons r rs ih =>
    rw [obeyAll_cons, ih, quarantine_obey, passed_congr (config_obey r), List.flatMap_cons,
      Quarantine.obeyAll_append]

theorem Admits.nil : h.Admits [] := by simp [Admits, Quarantine.Admits]

theorem Admits.append (hr : h.Admits rs) (hs : (h.obeyAll rs).Admits ss) : h.Admits (rs ++ ss) := by
  unfold Admits at hr hs ⊢
  rw [quarantine_obeyAll, passed_congr (config_obeyAll rs)] at hs
  rw [List.flatMap_append]
  exact hr.append hs

/-! ### Blocks that are recorded -/

/-- The blocks that the quarantine has recorded are those that the heap has, as they were
prepared. -/
theorem recorded_passed {z : Block} : h.quarantine.Recorded (rs.flatMap h.passed) z ↔
    ∃ b, h.Recorded rs b ∧ h.prepare b = z := by
  induction rs using List.reverseRecOn with
  | nil => simp [Quarantine.Recorded, Recorded, not_lastedSince_nil]
  | append_singleton rs r ih =>
    have hconcat (b : Block) : h.Recorded (rs ++ [r]) b ↔
        (r = .release b true ∧ (h.obeyAll rs).detects = true) ∨ (r ≠ .reclaim ∧ h.Recorded rs b) :=
      lastedSince_concat
    have hdetects : (h.obeyAll rs).detects =
        (h.config.keeps && (h.quarantine.obeyAll (rs.flatMap h.passed)).detecting) := by
      rw [detects, config_obeyAll, quarantine_obeyAll]
    simp only [List.flatMap_append, List.flatMap_cons, List.flatMap_nil, List.append_nil, hconcat,
      hdetects]
    cases r with
    | allocated | registered | invalidated => simp [passed, ih]
    | reclaim | setDetecting => simp [passed, Quarantine.recorded_concat, ih]
    | release c keep =>
      by_cases hk : (keep && h.config.keeps) = true
      · obtain ⟨rfl, hkeeps⟩ := Bool.and_eq_true_iff.mp hk
        simp only [passed, hkeeps, Bool.and_self, if_true, Quarantine.recorded_concat, ih,
          Bool.true_and]
        simp [or_and_right, exists_or, and_comm (a := h.prepare c = z)]
      · have hno (b : Block) : ¬ (Request.release c keep = .release b true ∧
            (h.config.keeps && (h.quarantine.obeyAll (rs.flatMap h.passed)).detecting) = true) := by
          rintro ⟨⟨⟩, hd⟩
          exact hk (by simpa using (Bool.and_eq_true_iff.mp hd).1)
        simp only [passed, if_neg hk, List.append_nil, ih, hno, false_or]
        simp

end Heap

end Custody

import Custody.Handle.Scan
import Mathlib.Tactic.SplitIfs

/-! Positions as natural numbers, and the arithmetic of machine words that they rest on. -/

namespace Custody

namespace Word

theorem toNat_magnitude (n : Int64) : (magnitude n).toNat = n.toInt.natAbs := by
  have hword : n.toUInt64.toNat = n.toBitVec.toNat := rfl
  have hlt := n.toBitVec.isLt
  have hint : n.toInt = if 2 * n.toBitVec.toNat < 2 ^ 64 then (n.toBitVec.toNat : Int)
      else n.toBitVec.toNat - (2 ^ 64 : Nat) := BitVec.toInt_eq_toNat_cond n.toBitVec
  have hzero : (0 : Int64).toInt = 0 := rfl
  unfold magnitude
  split_ifs with hn <;> rw [Int64.lt_iff_toInt_lt, hzero] at hn
  · rw [UInt64.toNat_sub, UInt64.toNat_zero, hword]
    split_ifs at hint <;> omega
  · rw [hword]
    split_ifs at hint <;> omega

/-- The sum of a word and a signed word, if it is a word. -/
theorem step?_cases (i : UInt64) (n : Int64) :
    (∃ j, step? i n = some j ∧ (j.toNat : Int) = i.toNat + n.toInt) ∨
      step? i n = none ∧ ¬ (0 ≤ i.toNat + n.toInt ∧ i.toNat + n.toInt < UInt64.size) := by
  have hmagnitude := toNat_magnitude n
  have hi := i.toNat_lt
  have hm := (magnitude n).toNat_lt
  have hzero : (0 : Int64).toInt = 0 := rfl
  unfold step?
  split_ifs with hn hlt hlt <;> rw [Int64.lt_iff_toInt_lt, hzero] at hn <;>
    rw [UInt64.lt_iff_toNat_lt] at hlt
  · exact .inr ⟨rfl, by omega⟩
  · refine .inl ⟨_, rfl, ?_⟩
    rw [UInt64.toNat_sub_of_le _ _ (UInt64.le_iff_toNat_le.mpr (by omega))]
    omega
  · rw [UInt64.toNat_add] at hlt
    exact .inr ⟨rfl, by simp only [UInt64.size]; omega⟩
  · rw [UInt64.toNat_add] at hlt
    refine .inl ⟨_, rfl, ?_⟩
    rw [UInt64.toNat_add]
    omega

theorem toNat_addUpTo (a b : UInt64) : (addUpTo a b).toNat = min (a.toNat + b.toNat) top.toNat := by
  have ha := a.toNat_lt
  have hb := b.toNat_lt
  have htop : top.toNat = 18446744073709551615 := rfl
  unfold addUpTo
  split_ifs with h <;> rw [UInt64.lt_iff_toNat_lt, UInt64.toNat_add] at h
  · omega
  · rw [UInt64.toNat_add]
    omega

theorem toNat_subDownTo (a b : UInt64) : (subDownTo a b).toNat = a.toNat - b.toNat := by
  unfold subDownTo
  split_ifs with h <;> rw [UInt64.lt_iff_toNat_lt] at h
  · rw [UInt64.toNat_zero]
    omega
  · exact UInt64.toNat_sub_of_le _ _ (UInt64.le_iff_toNat_le.mpr (Nat.le_of_not_lt h))

/-- Only the least signed word is not simply negated. -/
theorem toInt_negateUpTo (n : Int64) :
    (negateUpTo n).toInt = min (-n.toInt) Int64.maxValue.toInt := by
  have hmax : Int64.maxValue.toInt = 9223372036854775807 := by decide
  have hmin : Int64.minValue.toInt = -9223372036854775808 := by decide
  have hle := n.toInt_le
  have hge := n.le_toInt
  unfold negateUpTo
  split_ifs with h
  · rw [h]
    omega
  · have hne : n.toInt ≠ Int64.minValue.toInt := fun heq => h (Int64.toInt_inj.mp heq)
    rw [Int64.toInt_neg, Int.bmod_eq_of_le (by omega) (by omega)]
    omega

end Word

namespace Position

variable {p : Position} {i n : UInt64}

theorem index_le (p : Position) : p.index.toNat ≤ p.length.toNat :=
  UInt64.le_iff_toNat_le.mp p.index_le_length

theorem isEnd_iff : p.isEnd = true ↔ p.index.toNat = p.length.toNat := by
  simp [isEnd, UInt64.toNat_inj]

theorem isEnd_eq_false_iff : p.isEnd = false ↔ p.index.toNat < p.length.toNat := by
  rw [← Bool.not_eq_true, isEnd_iff]
  have := p.index_le
  omega

@[simp] theorem length_clamped (i n : UInt64) : (clamped i n).length = n := by
  unfold clamped
  split_ifs <;> rfl

theorem index_clamped (i n : UInt64) : (clamped i n).index.toNat = min i.toNat n.toNat := by
  unfold clamped
  split_ifs with h
  · exact (Nat.min_eq_left (UInt64.le_iff_toNat_le.mp h)).symm
  · have := (not_congr UInt64.le_iff_toNat_le).mp h
    change n.toNat = min i.toNat n.toNat
    omega

@[simp] theorem length_next (p : Position) : p.next.length = p.length := length_clamped _ _

theorem index_next (p : Position) :
    p.next.index.toNat = min (p.index.toNat + 1) p.length.toNat := by
  rw [next, index_clamped]
  have hp := p.length.toNat_lt
  split_ifs with h
  · have h := UInt64.lt_iff_toNat_lt.mp h
    rw [UInt64.toNat_add, UInt64.toNat_one, Nat.mod_eq_of_lt (by omega)]
  · have h := (not_congr UInt64.lt_iff_toNat_lt).mp h
    have := p.index_le
    omega

@[simp] theorem clamped_self (p : Position) : clamped p.index p.length = p :=
  dif_pos p.index_le_length

theorem length_move (p : Position) (m : Move) : (p.move m).length = p.length := by
  cases m <;> exact length_clamped _ _

/-- A step at the end of a range. -/
theorem next_of_isEnd (h : p.isEnd = true) : p.next = p := by
  have hlength := isEnd_iff.mp h
  apply Position.ext
  · rw [← UInt64.toNat_inj, index_next]
    omega
  · exact length_next p

theorem toInt64_eq (n : UInt64) : n.toInt64 = .ofInt n.toNat := by
  apply Int64.toInt_inj.mp
  rw [Int64.toInt_ofInt]
  exact BitVec.toInt_eq_toNat_bmod n.toBitVec

theorem toInt64_eq_iff {m : Int64} : n.toInt64 = m ↔ n = m.toUInt64 := by
  constructor
  · rintro rfl
    exact (UInt64.toUInt64_toInt64 n).symm
  · rintro rfl
    exact Int64.toInt64_toUInt64 m

/-- The distance of two positions is their difference, reduced to a signed word. Only where the
second is half of all words ahead it is refused. -/
theorem distance_eq (p q : Position) :
    p.distance q =
      if q.index.toNat = p.index.toNat + Int64.size / 2 then .error .negation
      else .ok (.ofInt (p.index.toNat - q.index.toNat)) := by
  have hhalf : Int64.size / 2 = 9223372036854775808 := by decide
  unfold distance
  by_cases h : q.index ≤ p.index
  · have hle := UInt64.le_iff_toNat_le.mp h
    rw [if_pos h, if_neg (by omega), toInt64_eq, UInt64.toNat_sub_of_le _ _ h, Int.ofNat_sub hle]
  · have hlt := (not_congr UInt64.le_iff_toNat_le).mp h
    have hsub : (q.index - p.index).toNat = q.index.toNat - p.index.toNat :=
      UInt64.toNat_sub_of_le _ _ (UInt64.le_iff_toNat_le.mpr (by omega))
    -- read as signed, half of all words is the least signed word, and no other difference is
    have hmin : (q.index - p.index).toInt64 = Int64.minValue ↔
        q.index.toNat = p.index.toNat + Int64.size / 2 := by
      have hword : q.index - p.index = Int64.minValue.toUInt64 ↔
          (q.index - p.index).toNat = 9223372036854775808 := UInt64.toNat_inj.symm
      rw [toInt64_eq_iff, hword, hsub]
      omega
    rw [if_neg h]
    simp only [hmin]
    rw [toInt64_eq, hsub, ← Int64.ofInt_neg, Int.ofNat_sub (by omega), Int.neg_sub]

/-- The other way round the difference is the least signed word. -/
example : (start 9223372036854775808).distance (.finish 9223372036854775808) = .error .negation ∧
    (finish 9223372036854775808).distance (.start 9223372036854775808) = .ok Int64.minValue :=
  ⟨rfl, rfl⟩

/-- Positions in a range that is no longer than the largest signed word are a signed word
apart. -/
theorem distance_eq_ok {q : Position} (hp : p.length.toNat ≤ Int64.maxValue.toInt)
    (hq : q.length.toNat ≤ Int64.maxValue.toInt) :
    ∃ d, p.distance q = .ok d ∧ d.toInt = p.index.toNat - q.index.toNat := by
  have hmax : Int64.maxValue.toInt = 9223372036854775807 := by decide
  have hhalf : Int64.size / 2 = 9223372036854775808 := by decide
  have hsize : Int64.size = 18446744073709551616 := rfl
  have hpi := p.index_le
  have hqi := q.index_le
  refine ⟨_, by rw [distance_eq, if_neg (by omega)], ?_⟩
  rw [Int64.toInt_ofInt]
  apply Int.bmod_eq_of_le <;> omega

/-- Aiming from a position in the range that it is measured against. -/
theorem aim_length_here (p : Position) : p.aim p.length.toNat .here = p.here := by
  rw [aim, UInt64.ofNat_toNat, clamped_self]

theorem aim_length_away (p : Position) (n : Int64) : p.aim p.length.toNat (.away n) = p.away n := by
  rw [aim, UInt64.ofNat_toNat, clamped_self]

/-- Aiming at the element at a position, in a range with room for it. -/
theorem aim_here {length : Nat} (h : p.index.toNat < length) (hw : length < UInt64.size) :
    p.aim length .here = .ok p.index := by
  have hlength : (UInt64.ofNat length).toNat = length := by
    rw [UInt64.toNat_ofNat']
    exact Nat.mod_eq_of_lt hw
  have hle : p.index ≤ UInt64.ofNat length := UInt64.le_iff_toNat_le.mpr (by omega)
  have hlt : p.index < UInt64.ofNat length := UInt64.lt_iff_toNat_lt.mpr (by omega)
  rw [aim, clamped, dif_pos hle, here, if_pos hlt]

/-- The number of the element aimed at; there is one if it is neither negative nor as large
as the length. -/
def target (p : Position) : Aim → Int
  | .here => p.index.toNat
  | .away n => p.index.toNat + n.toInt

/-- The index that is reported for an element that is not there: one that is no word is
reported as the largest. -/
def reported (t : Int) : Nat := if 0 ≤ t ∧ t < UInt64.size then t.toNat else Word.top.toNat

theorem reported_of_word (i : UInt64) : reported i.toNat = i.toNat := by
  have hi := i.toNat_lt
  rw [reported, if_pos ⟨by omega, by simp only [UInt64.size]; omega⟩]
  rfl

/-- In the range that a position is measured against, aiming comes to the element aimed at,
if there is one. -/
theorem aim_cases (p : Position) (a : Aim) :
    (∃ i, p.aim p.length.toNat a = .ok i ∧ p.target a = i.toNat ∧ i.toNat < p.length.toNat) ∨
      (p.aim p.length.toNat a = .error (.outOfRange (reported (p.target a)) p.length.toNat) ∧
        ¬ (0 ≤ p.target a ∧ p.target a < p.length.toNat)) := by
  have hp := p.length.toNat_lt
  have hi := p.index.toNat_lt
  cases a with
  | here =>
    rw [aim_length_here, here, target]
    split_ifs with h
    · exact .inl ⟨_, rfl, rfl, UInt64.lt_iff_toNat_lt.mp h⟩
    · have hle := (not_congr UInt64.lt_iff_toNat_lt).mp h
      exact .inr ⟨by rw [reported_of_word], by omega⟩
  | away n =>
    rw [aim_length_away, away, target]
    obtain ⟨j, hj, hsum⟩ | ⟨hnone, hrange⟩ := Word.step?_cases p.index n
    · rw [hj, ← hsum]
      dsimp only
      split_ifs with h
      · exact .inl ⟨j, rfl, rfl, UInt64.lt_iff_toNat_lt.mp h⟩
      · have hle := (not_congr UInt64.lt_iff_toNat_lt).mp h
        exact .inr ⟨by rw [reported_of_word], by omega⟩
    · rw [hnone]
      refine .inr ⟨by rw [reported, if_neg hrange], fun h => hrange ⟨h.1, ?_⟩⟩
      simp only [UInt64.size]
      omega

end Position

end Custody

import Custody.Proofs.Positions
import Custody.Slice
import Mathlib.Logic.Function.Iterate

/-! Moving within a range, in exact numbers. A move by `n` leads to the sum, held between the
first element and the end, over all machine words; it is `n` single steps, and a run of moves
is the same sums one after the other. The element `n` away is there exactly if the sum
itself lies in the range. Subtracting is exact too, in every range that is no longer than the
largest signed word. Main result: `clamps_exactly`. -/

namespace Custody

namespace Position

variable {p q r : Position} {s t : Int}

/-- `q` is where `p` comes to by `t` steps in its range; steps beyond either end lead nowhere. -/
structure Lands (p : Position) (t : Int) (q : Position) : Prop where
  length : q.length = p.length
  index : (q.index.toNat : Int) = max 0 (min (p.index.toNat + t) p.length.toNat)

theorem Lands.unique (h : p.Lands t q) (k : p.Lands t r) : q = r := by
  apply Position.ext
  · have hindex := h.index.trans k.index.symm
    exact UInt64.toNat_inj.mp (Int.ofNat_inj.mp hindex)
  · exact h.length.trans k.length.symm

/-- Steps in one direction add up. -/
theorem Lands.trans (h : p.Lands s q) (k : q.Lands t r) (hst : 0 ≤ s ∧ 0 ≤ t ∨ s ≤ 0 ∧ t ≤ 0) :
    p.Lands (s + t) r where
  length := k.length.trans h.length
  index := by
    have hp := p.index_le
    have hq := h.index
    -- what is held at one end by the first steps is held there by the second
    rw [k.index, hq, h.length]
    omega

/-! ### Single steps -/

theorem lands_zero (p : Position) : p.Lands 0 p where
  length := rfl
  index := by
    have hp := p.index_le
    omega

theorem lands_next (p : Position) : p.Lands 1 p.next where
  length := length_next p
  index := by
    rw [index_next]
    omega

theorem lands_previous (p : Position) : p.Lands (-1) p.previous where
  length := length_clamped _ _
  index := by
    rw [previous, index_clamped, Word.toNat_subDownTo, UInt64.toNat_one]
    omega

theorem lands_iterate_next (p : Position) (k : Nat) : p.Lands k (next^[k] p) := by
  induction k with
  | zero => exact p.lands_zero
  | succ k ih =>
    rw [Function.iterate_succ_apply', Int.natCast_succ]
    exact ih.trans (lands_next _) (by omega)

theorem lands_iterate_previous (p : Position) (k : Nat) : p.Lands (-k) (previous^[k] p) := by
  induction k with
  | zero => exact p.lands_zero
  | succ k ih =>
    rw [Function.iterate_succ_apply', Int.natCast_succ, Int.neg_add]
    exact ih.trans (lands_previous _) (by omega)

/-! ### Moves by a signed word -/

theorem lands_advance (p : Position) (n : Int64) : p.Lands n.toInt (p.advance n) where
  length := length_clamped _ _
  index := by
    have hmagnitude := Word.toNat_magnitude n
    have hlength := p.length.toNat_lt
    have htop : Word.top.toNat = 18446744073709551615 := rfl
    have hzero : (0 : Int64).toInt = 0 := rfl
    rw [advance, index_clamped]
    split_ifs with hn <;> rw [Int64.lt_iff_toInt_lt, hzero] at hn
    · rw [Word.toNat_subDownTo, hmagnitude]
      omega
    · rw [Word.toNat_addUpTo, hmagnitude]
      omega

/-- Steps in the direction of a signed word. -/
def stepToward (n : Int64) : Position → Position := if n < 0 then previous else next

theorem advance_eq_iterate (p : Position) (n : Int64) :
    p.advance n = (stepToward n)^[n.toInt.natAbs] p := by
  have hzero : (0 : Int64).toInt = 0 := rfl
  apply (p.lands_advance n).unique
  unfold stepToward
  split_ifs with hn <;> rw [Int64.lt_iff_toInt_lt, hzero] at hn
  · have hsteps := p.lands_iterate_previous n.toInt.natAbs
    rwa [Int.ofNat_natAbs_of_nonpos (by omega), Int.neg_neg] at hsteps
  · have hsteps := p.lands_iterate_next n.toInt.natAbs
    rwa [Int.natAbs_of_nonneg (by omega)] at hsteps

theorem lands_retreat (p : Position) (n : Int64) :
    p.Lands (min (-n.toInt) Int64.maxValue.toInt) (p.retreat n) := by
  rw [← Word.toInt_negateUpTo]
  exact p.lands_advance _

/-- In a range that is no longer than the largest signed word, either way to negate the least
one leads to the end. -/
theorem lands_retreat_of_le (h : p.length.toNat ≤ Int64.maxValue.toInt) (n : Int64) :
    p.Lands (-n.toInt) (p.retreat n) where
  length := (p.lands_retreat n).length
  index := by
    have hindex := (p.lands_retreat n).index
    have hp := p.index_le
    omega

/-! ### Runs -/

/-- By how much a move would change the index in a range without ends. -/
def Move.offset : Move → Int
  | .next => 1
  | .previous => -1
  | .advance n => n.toInt
  | .retreat n => min (-n.toInt) Int64.maxValue.toInt

theorem lands_move (p : Position) (m : Move) : p.Lands m.offset (p.move m) := by
  cases m with
  | next => exact p.lands_next
  | previous => exact p.lands_previous
  | advance n => exact p.lands_advance n
  | retreat n => exact p.lands_retreat n

theorem move_origin (m : Move) : Position.origin.move m = .origin := by
  have hm := Position.origin.lands_move m
  refine hm.unique ⟨rfl, ?_⟩
  rw [show Position.origin.length.toNat = 0 from rfl, show Position.origin.index.toNat = 0 from rfl]
  omega

/-- Where moves lead in a range of some length, in exact numbers. -/
def track (length : Nat) (t : Int) (ms : List Move) : Int :=
  ms.foldl (fun t m => max 0 (min (t + m.offset) length)) t

theorem length_foldl_move (p : Position) (ms : List Move) :
    (ms.foldl move p).length = p.length := by
  induction ms generalizing p with
  | nil => rfl
  | cons m ms ih => exact (ih (p.move m)).trans (length_move p m)

theorem index_foldl_move (p : Position) (ms : List Move) :
    ((ms.foldl move p).index.toNat : Int) = track p.length.toNat p.index.toNat ms := by
  induction ms generalizing p with
  | nil => rfl
  | cons m ms ih =>
    have hm := p.lands_move m
    rw [List.foldl_cons, ih, hm.index, hm.length]
    rfl

/-! ### Elements away -/

/-- Away from a position there is the element whose index is the sum, and no other. -/
theorem away_eq_ok_iff {n : Int64} {k : UInt64} :
    p.away n = .ok k ↔ (k.toNat : Int) = p.index.toNat + n.toInt ∧ k.toNat < p.length.toNat := by
  obtain ⟨j, hj, ht, hlt⟩ | ⟨herror, hrange⟩ := p.aim_cases (.away n)
  · rw [aim_length_away] at hj
    rw [target] at ht
    rw [hj, ht]
    constructor
    · intro hjk
      obtain rfl := Except.ok.inj hjk
      exact ⟨rfl, hlt⟩
    · rintro ⟨hk, -⟩
      exact congrArg Except.ok (UInt64.toNat_inj.mp (Int.ofNat_inj.mp hk)).symm
  · rw [aim_length_away] at herror
    rw [target] at hrange
    rw [herror]
    constructor
    · rintro ⟨⟩
    · rintro ⟨hk, hlt⟩
      exact absurd (by omega) hrange

theorem exists_away_iff {n : Int64} :
    (∃ k, p.away n = .ok k) ↔
      0 ≤ p.index.toNat + n.toInt ∧ p.index.toNat + n.toInt < p.length.toNat := by
  have hlength := p.length.toNat_lt
  constructor
  · rintro ⟨k, hk⟩
    obtain ⟨hsum, hlt⟩ := away_eq_ok_iff.mp hk
    omega
  · rintro ⟨hle, hlt⟩
    have hword :
        (UInt64.ofNat (p.index.toNat + n.toInt).toNat).toNat = (p.index.toNat + n.toInt).toNat :=
      UInt64.toNat_ofNat_of_lt' (by simp only [UInt64.size]; omega)
    exact ⟨UInt64.ofNat (p.index.toNat + n.toInt).toNat,
      away_eq_ok_iff.mpr ⟨by rw [hword]; omega, by rw [hword]; omega⟩⟩

/-- What is away from a position is what is there after moving. -/
theorem here_advance {n : Int64} {k : UInt64} (h : p.away n = .ok k) :
    (p.advance n).here = .ok k := by
  obtain ⟨hsum, hlt⟩ := away_eq_ok_iff.mp h
  have hlands := p.lands_advance n
  have hindex : (p.advance n).index = k := by
    apply UInt64.toNat_inj.mp
    have := hlands.index
    omega
  rw [here, hlands.length, hindex, if_pos (UInt64.lt_iff_toNat_lt.mpr hlt)]

/-- The arithmetic of a position is that of the integers, held within its range. -/
structure MovesExactly (p : Position) : Prop where
  advance : ∀ n, p.Lands n.toInt (p.advance n)
  steps : ∀ n, p.advance n = (stepToward n)^[n.toInt.natAbs] p
  /-- Only before the end is one added, and the sum is a word. -/
  sum : p.isEnd = false → (p.index + 1).toNat = p.index.toNat + 1
  run : ∀ ms : List Move, (ms.foldl move p).length = p.length ∧
    (ms.foldl move p).index ≤ p.length ∧
    ((ms.foldl move p).index.toNat : Int) = track p.length.toNat p.index.toNat ms
  away_iff : ∀ n, (∃ k, p.away n = .ok k) ↔
    0 ≤ p.index.toNat + n.toInt ∧ p.index.toNat + n.toInt < p.length.toNat
  away : ∀ n k, p.away n = .ok k →
    (k.toNat : Int) = p.index.toNat + n.toInt ∧ (p.advance n).here = .ok k

theorem movesExactly (p : Position) : p.MovesExactly where
  advance := p.lands_advance
  steps := p.advance_eq_iterate
  sum h := by
    have hlt := isEnd_eq_false_iff.mp h
    have hlength := p.length.toNat_lt
    rw [UInt64.toNat_add, UInt64.toNat_one, Nat.mod_eq_of_lt (by omega)]
  run ms := by
    have hlength := p.length_foldl_move ms
    exact ⟨hlength, hlength ▸ (ms.foldl move p).index_le_length, p.index_foldl_move ms⟩
  away_iff n := exists_away_iff
  away n k h := ⟨(away_eq_ok_iff.mp h).1, here_advance h⟩

end Position

namespace World

/-- A scan that is not there is at the origin, and stays. -/
theorem scan_moveScan (w : World) (i : Nat) (m : Position.Move) :
    (w.moveScan i m).scan i = { w.scan i with position := (w.scan i).position.move m } := by
  rw [scan, scan, moveScan, Array.getElem?_modify, if_pos rfl]
  cases w.scans[i]? with
  | some c => rfl
  | none => exact congrArg (Scan.mk none) (Position.move_origin m).symm

/-- The arithmetic of every position is exact, over all signed words. Subtracting is as exact, with
the least signed word too, from positions in slices and from scans, in every range that is no
longer than the largest signed word; what they are of stays what it was. -/
theorem clamps_exactly {α : Type} :
    (∀ p : Position, p.MovesExactly) ∧
    (∀ p : Spot α, p.position.length.toNat ≤ Int64.maxValue.toInt → ∀ n,
      (p.move (.retreat n)).slice = p.slice ∧
      p.position.Lands (-n.toInt) (p.move (.retreat n)).position) ∧
    ∀ (w : World) (i : Nat), (w.scan i).position.length.toNat ≤ Int64.maxValue.toInt → ∀ n,
      ∃ v, (Op.moveScan i (.retreat n)).run.run w = (.ok (), v) ∧
        (v.scan i).array = (w.scan i).array ∧
        (w.scan i).position.Lands (-n.toInt) (v.scan i).position := by
  refine ⟨Position.movesExactly, ?_, ?_⟩
  · intro p hp n
    exact ⟨rfl, Position.lands_retreat_of_le hp n⟩
  · intro w i hlength n
    refine ⟨w.moveScan i (.retreat n), rfl, ?_, ?_⟩ <;> rw [scan_moveScan]
    exact Position.lands_retreat_of_le hlength n

/-- Three integers, with a scan at the second and one at the end. -/
def scannedInts : World :=
  [.construct 0 ⟨.array, .int, .tracked⟩ ⟨3, fun i => .int (Int64.ofNat i), none⟩,
    .newScan (some 0) 1, .newScan (some 0) 3].foldl Action.run (start defaultGrant)

/-- The least signed word is not the negation of any, and yet it leads to the end. -/
theorem clamps_exactly_least :
    (Spot.place (⟨0, [1, 2, 3]⟩ : Slice Nat) 1).position.Lands 9223372036854775808
      ((Spot.place (⟨0, [1, 2, 3]⟩ : Slice Nat) 1).move (.retreat Int64.minValue)).position ∧
    ∃ v, (Op.moveScan 0 (.retreat Int64.minValue)).run.run scannedInts = (.ok (), v) ∧
      (v.scan 0).array = some ⟨0, some ⟨0, 0⟩⟩ ∧
      (scannedInts.scan 0).position.Lands 9223372036854775808 (v.scan 0).position :=
  ⟨(clamps_exactly.2.1 _ (by decide) Int64.minValue).2,
    clamps_exactly (α := Nat).2.2 scannedInts 0 (by decide) Int64.minValue⟩

end World

end Custody

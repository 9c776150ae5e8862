import Custody.Proofs.Clamping
import Custody.Proofs.Scans.Fitting
import Custody.Proofs.Scans.Following

/-! Distances of positions. Of any two positions the distance is the difference, reduced to a
signed word; where the second is half of all words ahead of the first, the negation
overflows. In one range that is no longer than the largest signed word the distance is the
difference itself, for bare positions, for positions in slices and for scans alike. Main
result: `distances_exact`. -/

namespace Custody

/-- What is in one range has distances as numbers have: they are the differences of the indices,
they change sign when turned round, they add up, and each leads from the second place to the
first. -/
structure Measures {ρ ε : Type} (place : ρ → Position) (distance : ρ → ρ → Except ε Int64)
    (inRange : ρ → Prop) : Prop where
  exact : ∀ a b, inRange a → inRange b → ∃ d, distance a b = .ok d ∧
    d.toInt = (place a).index.toNat - (place b).index.toNat
  antisymmetric : ∀ a b d, inRange a → inRange b → distance a b = .ok d →
    ∃ e, distance b a = .ok e ∧ e.toInt = -d.toInt
  additive : ∀ a b c d e, inRange a → inRange b → inRange c → distance a b = .ok d →
    distance b c = .ok e → ∃ f, distance a c = .ok f ∧ f.toInt = d.toInt + e.toInt
  lands : ∀ a b d, inRange a → inRange b → distance a b = .ok d → (place b).advance d = place a

section Measures

variable {ρ ε : Type} {place : ρ → Position} {distance : ρ → ρ → Except ε Int64}
  {inRange : ρ → Prop}

/-- Whatever takes the distances of positions in one short range. -/
theorem measures_of_distance {n : UInt64} (hn : n.toNat ≤ Int64.maxValue.toInt)
    (hlength : ∀ a, inRange a → (place a).length = n)
    (hdistance : ∀ a b d, inRange a → inRange b → (place a).distance (place b) = .ok d →
      distance a b = .ok d) : Measures place distance inRange := by
  have hexact (a b : ρ) (ha : inRange a) (hb : inRange b) : ∃ d, distance a b = .ok d ∧
      d.toInt = (place a).index.toNat - (place b).index.toNat := by
    obtain ⟨d, hd, hint⟩ := Position.distance_eq_ok (p := place a) (q := place b)
      (by rwa [hlength a ha]) (by rwa [hlength b hb])
    exact ⟨d, hdistance a b d ha hb hd, hint⟩
  have hint (a b : ρ) (d : Int64) (ha : inRange a) (hb : inRange b) (hd : distance a b = .ok d) :
      d.toInt = (place a).index.toNat - (place b).index.toNat := by
    obtain ⟨e, he, hint⟩ := hexact a b ha hb
    obtain rfl := Except.ok.inj (he.symm.trans hd)
    exact hint
  refine ⟨hexact, fun a b d ha hb hd => ?_, fun a b c d e ha hb hc hd he => ?_,
    fun a b d ha hb hd => ?_⟩
  · obtain ⟨e, he, heint⟩ := hexact b a hb ha
    have hdint := hint a b d ha hb hd
    exact ⟨e, he, by omega⟩
  · obtain ⟨f, hf, hfint⟩ := hexact a c ha hc
    have hdint := hint a b d ha hb hd
    have heint := hint b c e hb hc he
    exact ⟨f, hf, by omega⟩
  · have hsame : (place a).length = (place b).length := (hlength a ha).trans (hlength b hb).symm
    apply ((place b).lands_advance d).unique
    refine ⟨hsame, ?_⟩
    have ha' := (place a).index_le
    rw [hint a b d ha hb hd, ← hsame]
    omega

end Measures

namespace Spot

variable {α : Type} {p q : Spot α} {s : Slice α}

theorem same_of_same (hp : p.slice.same s = true) (hq : q.slice.same s = true) :
    p.slice.same q.slice = true := by
  rw [Slice.same_iff] at *
  exact ⟨hp.1.trans hq.1.symm, hp.2.trans hq.2.symm⟩

end Spot

namespace Scan

variable {s t : Scan}

/-- Two scans are of the same range, or both of none. -/
theorem comparable_eq_ok_iff :
    s.comparable t = .ok () ↔ s.array.map Watch.record = t.array.map Watch.record := by
  rw [comparable, isNull, isNull]
  cases s.array <;> cases t.array <;> simp [World.sameTarget]

theorem distance_of_comparable {d : Int64} (h : s.comparable t = .ok ())
    (hd : s.position.distance t.position = .ok d) : s.distance t = .ok d := by
  rw [distance, h]
  dsimp only
  rw [hd]

end Scan

namespace World

variable {α : Type} {w : World}

/-- The distance of two positions is their difference, reduced to a signed word, and the one
difference that is refused is half of all words. In a range that is no longer than the largest
signed word, none is refused and all are exact: for positions, for positions in slices, and for
scans of one range or of none in every reachable world. -/
theorem distances_exact (h : w.Reachable) :
    (∀ p q : Position, p.distance q =
      if q.index.toNat = p.index.toNat + Int64.size / 2 then .error .negation
      else .ok (.ofInt (p.index.toNat - q.index.toNat))) ∧
    (∀ n : UInt64, n.toNat ≤ Int64.maxValue.toInt →
      Measures id Position.distance fun p => p.length = n) ∧
    (∀ s : Slice α, s.items.length ≤ Int64.maxValue.toInt →
      Measures Spot.position Spot.distance fun p =>
        p.slice.same s = true ∧ p.position.length = s.length) ∧
    ∀ r : Option RecordId, w.rangeLength r ≤ Int64.maxValue.toInt →
      Measures (fun i => (w.scan i).position) (fun i j => (w.scan i).distance (w.scan j))
        fun i => (w.scan i).array.map Watch.record = r := by
  have hmax : Int64.maxValue.toInt = 9223372036854775807 := by decide
  have hword {n : Nat} (hn : n ≤ Int64.maxValue.toInt) : (UInt64.ofNat n).toNat = n :=
    UInt64.toNat_ofNat_of_lt' (by simp only [UInt64.size]; omega)
  refine ⟨Position.distance_eq, fun n hn => ?_, fun s hs => ?_, fun r hr => ?_⟩
  · exact measures_of_distance hn (fun p hp => hp) fun p q d _ _ hd => hd
  · apply measures_of_distance (n := s.length)
    · rwa [Slice.length, hword hs]
    · exact fun p hp => hp.2
    · exact fun p q d hp hq => Spot.distance_of_same (Spot.same_of_same hp.1 hq.1)
  · apply measures_of_distance (n := .ofNat (w.rangeLength r))
    · rwa [hword hr]
    · intro i hi
      apply UInt64.toNat_inj.mp
      rw [hword hr, ← hi]
      exact h.fitted_scan i
    · exact fun i j d hi hj =>
        Scan.distance_of_comparable (Scan.comparable_eq_ok_iff.mpr (hi.trans hj.symm))

theorem distances_scannedInts :
    ∃ d e, (scannedInts.scan 0).distance (scannedInts.scan 1) = .ok d ∧ d.toInt = -2 ∧
      (scannedInts.scan 1).position.advance d = (scannedInts.scan 0).position ∧
      (scannedInts.scan 1).distance (scannedInts.scan 0) = .ok e ∧ e.toInt = 2 := by
  have hmeasures := (distances_exact (α := Nat) (reachable_foldl _ _ : scannedInts.Reachable)).2.2.2
    (some 0) (by decide)
  obtain ⟨d, hd, hdint⟩ := hmeasures.exact 0 1 (by decide) (by decide)
  obtain ⟨e, he, heint⟩ := hmeasures.antisymmetric 0 1 d (by decide) (by decide) hd
  exact ⟨d, e, hd, hdint, hmeasures.lands 0 1 d (by decide) (by decide) hd,
    he, by rw [heint, hdint]; rfl⟩

end World

end Custody

import Custody.Proofs.Attainment
import Custody.Proofs.Distances
import Custody.Session.Scans

/-! Comparing scans. The scans of one range are totally ordered by where they are, and equality,
distance and the operators agree with the order. Scans of different ranges do not compare, and a
scan of nothing is neither equal nor ordered. Whether the range is alive, lent or written plays
no part, and nothing that is done elsewhere changes an answer. Main result: `comparisons_cohere`. -/

namespace Custody

/-! ### Commands on named scans -/

namespace Step

variable {α β : Type}

theorem run_bind (a : Step α) (f : α → Step β) (d : Desk) (w : World) :
    ((a >>= f).run.run d).run w = match (a.run.run d).run w with
      | ((.ok x, e), v) => ((f x).run.run e).run v
      | ((.error fault, e), v) => ((.error fault, e), v) := by
  rw [ExceptT.run_bind, StateT.run_bind, Act.run_bind]
  rcases (a.run.run d).run w with ⟨⟨_ | _, e⟩, v⟩ <;> rfl

theorem run_named {r : Role} {a : String} {i : Nat} {d : Desk} (h : d.names.find? r a = some i)
    (w : World) : ((named r a).run.run d).run w = ((.ok i, d), w) := by
  have hnames : (names.run.run d).run w = ((.ok d.names, d), w) := rfl
  rw [named, run_bind, hnames]
  dsimp only
  rw [h]
  rfl

end Step

namespace ScanCommand

open Step

variable {k : Kind} {d : Desk} {a b : String} {i j : Nat} {w : World}

/-- What a command answers, the names it leaves and the world. -/
def outcome (c : ScanCommand) (k : Kind) (d : Desk) (w : World) :
    (Except Fault Report × Desk) × World :=
  ((c.run k).run.run d).run w

theorem run_pair (ha : d.names.find? (.scan k) a = some i)
    (hb : d.names.find? (.scan k) b = some j) :
    ((pair k a b).run.run d).run w = ((.ok (w.scan i, w.scan j), d), w) := by
  rw [pair, run_bind, run_named ha]
  dsimp only
  rw [run_bind, run_named hb]
  rfl

theorem outcome_relations (ha : d.names.find? (.scan k) a = some i)
    (hb : d.names.find? (.scan k) b = some j) :
    (relations a b).outcome k d w = match (w.scan i).order? (w.scan j) with
      | .ok o =>
        ((.ok (.row [.flag (o.any (·.isLT)), .flag (o.any (·.isLE)), .flag (o.any (·.isGT)),
          .flag (o.any (·.isGE))]), d), w)
      | .error e =>
        ((.error (.panicked (.fatal (.access e))), d), w.raise (.fatal (.access e))) := by
  rw [outcome, run, run_bind, run_pair ha hb]
  dsimp only
  cases (w.scan i).order? (w.scan j) <;> rfl

theorem outcome_same (ha : d.names.find? (.scan k) a = some i)
    (hb : d.names.find? (.scan k) b = some j) :
    (same .insist a b).outcome k d w = match (w.scan i).same (w.scan j) with
      | .ok equal => ((.ok (.flag equal), d), w)
      | .error e =>
        ((.error (.panicked (.fatal (.access e))), d), w.raise (.fatal (.access e))) := by
  rw [outcome, run, run_bind, run_pair ha hb]
  dsimp only
  cases (w.scan i).same (w.scan j) <;> rfl

end ScanCommand

/-! ### Two scans -/

namespace Scan

variable {s t : Scan} {r : RecordId}

theorem isNull_eq_false (h : s.array.map Watch.record = some r) : s.isNull = false := by
  rw [isNull, ← Option.isNone_map, h, Option.isNone_some]

theorem comparable_of_ne (h : s.array.map Watch.record ≠ t.array.map Watch.record) :
    s.comparable t = .error .unrelated := by
  have hnot := mt comparable_eq_ok_iff.mp h
  unfold comparable at hnot ⊢
  split_ifs at hnot ⊢
  · exact absurd rfl hnot
  · rfl

theorem order_of_range (hs : s.array.map Watch.record = some r)
    (ht : t.array.map Watch.record = some r) :
    s.order t = .ok (compare s.position.index.toNat t.position.index.toNat) := by
  rw [order, isNull_eq_false hs, isNull_eq_false ht, comparable_eq_ok_iff.mpr (hs.trans ht.symm)]
  rfl

theorem same_of_range (hs : s.array.map Watch.record = some r)
    (ht : t.array.map Watch.record = some r) :
    s.same t = .ok (decide (s.position.index = t.position.index)) := by
  rw [same, isNull_eq_false hs, isNull_eq_false ht, comparable_eq_ok_iff.mpr (hs.trans ht.symm)]
  rfl

theorem order?_of_order {o : Ordering} (h : s.order t = .ok o) : s.order? t = .ok (some o) := by
  rw [order?, h]

end Scan

namespace World

variable {w : World} {i j : Nat} {r r' : RecordId}

/-- Scan `i` is of the range of record `r`, whatever became of it. -/
def IsOf (w : World) (r : RecordId) (i : Nat) : Prop := (w.scan i).array.map Watch.record = some r

instance (w : World) (r : RecordId) (i : Nat) : Decidable (w.IsOf r i) :=
  inferInstanceAs (Decidable (_ = _))

/-- The operators on two scans, by whatever names, go by `o`, the order of the two as far as
there is one. They change nothing. -/
structure Operators (w : World) (i j : Nat) (o : Option Ordering) : Prop where
  order? : (w.scan i).order? (w.scan j) = .ok o
  relations : ∀ k d a b, d.names.find? (.scan k) a = some i → d.names.find? (.scan k) b = some j →
    (ScanCommand.relations a b).outcome k d w =
      ((.ok (.row [.flag (o.any (·.isLT)), .flag (o.any (·.isLE)), .flag (o.any (·.isGT)),
        .flag (o.any (·.isGE))]), d), w)
  equal : ∀ k d a b, d.names.find? (.scan k) a = some i → d.names.find? (.scan k) b = some j →
    (ScanCommand.same .insist a b).outcome k d w = ((.ok (.flag (decide (o = some .eq))), d), w)

theorem operators_of_eq {o : Option Ordering} (horder : (w.scan i).order? (w.scan j) = .ok o)
    (hsame : (w.scan i).same (w.scan j) = .ok (decide (o = some .eq))) : w.Operators i j o where
  order? := horder
  relations k d a b ha hb := by rw [ScanCommand.outcome_relations ha hb, horder]
  equal k d a b ha hb := by rw [ScanCommand.outcome_same ha hb, hsame]

/-- Two scans have the order `o`, and everything else goes by it. -/
structure Ordered (w : World) (i j : Nat) (o : Ordering) : Prop where
  order : (w.scan i).order (w.scan j) = .ok o
  same : (w.scan i).same (w.scan j) = .ok (decide (o = .eq))
  distance : ∃ d, (w.scan i).distance (w.scan j) = .ok d ∧ compare d.toInt 0 = o ∧ (d = 0 ↔ o = .eq)
  operators : w.Operators i j (some o)

/-- Two scans that cannot be compared: each answer is a refusal, and the operators are fatal. -/
structure Unrelated (w : World) (i j : Nat) : Prop where
  order : (w.scan i).order (w.scan j) = .error .unrelated
  order? : (w.scan i).order? (w.scan j) = .error .unrelated
  same : (w.scan i).same (w.scan j) = .error .unrelated
  distance : (w.scan i).distance (w.scan j) = .error (.refused (.access .unrelated))
  fatal : ∀ k d a b, d.names.find? (.scan k) a = some i → d.names.find? (.scan k) b = some j →
    ∀ c ∈ [ScanCommand.relations a b, .same .insist a b],
      c.outcome k d w = ((.error (.panicked (.fatal (.access .unrelated))), d),
        w.raise (.fatal (.access .unrelated)))

/-- Two scans one of which is of nothing. -/
structure Unordered (w : World) (i j : Nat) : Prop where
  order : (w.scan i).order (w.scan j) = .error .null
  same : (w.scan i).same (w.scan j) = .ok false
  distance : (w.scan i).distance (w.scan j) =
    if (w.scan i).isNull && (w.scan j).isNull then .ok 0 else .error (.refused (.access .unrelated))
  operators : w.Operators i j none

theorem unrelated_of_ne (hi : w.IsOf r i) (hj : w.IsOf r' j) (h : r ≠ r') : w.Unrelated i j := by
  have hcomparable : (w.scan i).comparable (w.scan j) = .error .unrelated := by
    apply Scan.comparable_of_ne
    rw [hi, hj]
    exact mt Option.some.inj h
  have horder : (w.scan i).order (w.scan j) = .error .unrelated := by
    rw [Scan.order, Scan.isNull_eq_false hi, Scan.isNull_eq_false hj, hcomparable]
    rfl
  have horder? : (w.scan i).order? (w.scan j) = .error .unrelated := by rw [Scan.order?, horder]
  have hsame : (w.scan i).same (w.scan j) = .error .unrelated := by
    rw [Scan.same, Scan.isNull_eq_false hi, Scan.isNull_eq_false hj, hcomparable]
    rfl
  refine ⟨horder, horder?, hsame, by rw [Scan.distance, hcomparable], fun k d a b ha hb => ?_⟩
  rw [List.forall_mem_cons, List.forall_mem_singleton]
  exact ⟨by rw [ScanCommand.outcome_relations ha hb, horder?],
    by rw [ScanCommand.outcome_same ha hb, hsame]⟩

/-- Of nothing there is one position only. -/
theorem Reachable.unordered_of_isNull (h : w.Reachable)
    (hnull : ((w.scan i).isNull || (w.scan j).isNull) = true) : w.Unordered i j := by
  have horder : (w.scan i).order (w.scan j) = .error .null := by rw [Scan.order, if_pos hnull]
  have hsame : (w.scan i).same (w.scan j) = .ok false := by rw [Scan.same, if_pos hnull]
  have horder? : (w.scan i).order? (w.scan j) = .ok none := by rw [Scan.order?, horder]
  refine ⟨horder, hsame, ?_, operators_of_eq horder? hsame⟩
  split_ifs with hboth
  · obtain ⟨hi, hj⟩ := Bool.and_eq_true_iff.mp hboth
    have hzero (n : Nat) (hn : (w.scan n).isNull = true) : (w.scan n).position.index = 0 := by
      have hfit := h.fitted_scan n
      have hle := (w.scan n).position.index_le
      rw [Fitted, Option.isNone_iff_eq_none.mp hn] at hfit
      have hlength : w.rangeLength (Option.map Watch.record none) = 0 := rfl
      apply UInt64.toNat_inj.mp
      rw [UInt64.toNat_zero]
      omega
    apply Scan.distance_of_comparable
    · rw [Scan.comparable_eq_ok_iff, Option.isNone_iff_eq_none.mp hi,
        Option.isNone_iff_eq_none.mp hj]
    · rw [Position.distance, hzero i hi, hzero j hj]
      rfl
  -- only one of the two is of nothing
  · have hne : (w.scan i).array.map Watch.record ≠ (w.scan j).array.map Watch.record := by
      intro heq
      have hisNull : (w.scan i).isNull = (w.scan j).isNull := by
        rw [Scan.isNull, Scan.isNull, ← Option.isNone_map, heq, Option.isNone_map]
      simp_all
    rw [Scan.distance, Scan.comparable_of_ne hne]

/-! ### One range -/

theorem compare_sub_zero (a b : Nat) : compare ((a : Int) - b) 0 = compare a b := by
  obtain h | h | h := Nat.lt_trichotomy a b
  · rw [Nat.compare_eq_lt.mpr h, Int.compare_eq_lt.mpr (by omega)]
  · rw [Nat.compare_eq_eq.mpr h, Int.compare_eq_eq.mpr (by omega)]
  · rw [Nat.compare_eq_gt.mpr h, Int.compare_eq_gt.mpr (by omega)]

/-- The order of the scans of one range is total: it orders any two, in opposite ways
when they are turned round, and as equal exactly where they are at the same position; and it
is transitive. -/
structure OrdersRange (w : World) (r : RecordId) : Prop where
  total : ∀ i j, w.IsOf r i → w.IsOf r j → ∃ o, w.Ordered i j o
  eq_iff : ∀ i j, w.IsOf r i → w.IsOf r j →
    (w.Ordered i j .eq ↔ (w.scan i).position = (w.scan j).position)
  swap : ∀ i j o, w.IsOf r i → w.IsOf r j → w.Ordered i j o → w.Ordered j i o.swap
  trans : ∀ i j k o o', w.IsOf r i → w.IsOf r j → w.IsOf r k → w.Ordered i j o → o.isLE = true →
    w.Ordered j k o' → o'.isLE = true → ∃ o'', w.Ordered i k o'' ∧ o''.isLE = true

theorem Reachable.ordered_iff (h : w.Reachable) (hr : w.rangeLength (some r) ≤ Int64.maxValue.toInt)
    (hi : w.IsOf r i) (hj : w.IsOf r j) {o : Ordering} :
    w.Ordered i j o ↔
      o = compare (w.scan i).position.index.toNat (w.scan j).position.index.toNat := by
  have horder := Scan.order_of_range hi hj
  constructor
  · intro ho
    exact Except.ok.inj (ho.order.symm.trans horder)
  · rintro rfl
    have hlength (n : Nat) (hn : w.IsOf r n) :
        (w.scan n).position.length.toNat ≤ Int64.maxValue.toInt := by
      have hfit := h.fitted_scan n
      rw [Fitted, hn] at hfit
      rwa [hfit]
    have heq : (w.scan i).position.index = (w.scan j).position.index ↔
        compare (w.scan i).position.index.toNat (w.scan j).position.index.toNat = .eq := by
      rw [Nat.compare_eq_eq, UInt64.toNat_inj]
    have hsame : (w.scan i).same (w.scan j) = .ok (decide
        (compare (w.scan i).position.index.toNat (w.scan j).position.index.toNat = .eq)) := by
      rw [Scan.same_of_range hi hj]
      simp only [heq]
    refine ⟨horder, hsame, ?_, operators_of_eq (Scan.order?_of_order horder) ?_⟩
    · obtain ⟨d, hd, hint⟩ := Position.distance_eq_ok (hlength i hi) (hlength j hj)
      refine ⟨d, Scan.distance_of_comparable (Scan.comparable_eq_ok_iff.mpr (hi.trans hj.symm))
        hd, ?_, ?_⟩
      · rw [hint, compare_sub_zero]
      · rw [← Int64.toInt_inj, hint, Nat.compare_eq_eq, Int64.toInt_zero]
        omega
    · rw [hsame]
      simp only [Option.some.injEq]

theorem Reachable.ordersRange (h : w.Reachable)
    (hr : w.rangeLength (some r) ≤ Int64.maxValue.toInt) : w.OrdersRange r where
  total i j hi hj := ⟨_, (h.ordered_iff hr hi hj).mpr rfl⟩
  eq_iff i j hi hj := by
    have hlength : (w.scan i).position.length = (w.scan j).position.length := by
      have hfit := (h.fitted_scan i).trans (congrArg w.rangeLength (hi.trans hj.symm))
      exact UInt64.toNat_inj.mp (hfit.trans (h.fitted_scan j).symm)
    rw [h.ordered_iff hr hi hj, eq_comm, Nat.compare_eq_eq, UInt64.toNat_inj]
    exact ⟨fun hindex => Position.ext hindex hlength, congrArg Position.index⟩
  swap i j o hi hj ho := by
    rw [h.ordered_iff hr hi hj] at ho
    rw [h.ordered_iff hr hj hi, ho, Nat.compare_swap]
  trans i j k o o' hi hj hk ho hle ho' hle' := by
    rw [h.ordered_iff hr hi hj] at ho
    rw [h.ordered_iff hr hj hk] at ho'
    rw [ho, Nat.isLE_compare] at hle
    rw [ho', Nat.isLE_compare] at hle'
    exact ⟨_, (h.ordered_iff hr hi hk).mpr rfl, Nat.isLE_compare.mpr (hle.trans hle')⟩

/-! ### All scans -/

/-- Comparing scans in every reachable world, whether their ranges are alive, destroyed or
orphaned. In one range that is no longer than the largest signed word, they are totally ordered,
and equality, distance and the operators go by the order. In different ranges, as long and as
filled as may be, nothing compares. A scan of nothing equals nothing and has no order. And an
answer about two scans stays what it is through every run that leaves the two alone, whatever
is destroyed, orphaned, lent, written or made in it. -/
theorem comparisons_cohere (h : w.Reachable) :
    (∀ r, w.rangeLength (some r) ≤ Int64.maxValue.toInt → w.OrdersRange r) ∧
    (∀ r r' i j, w.IsOf r i → w.IsOf r' j → r ≠ r' → w.Unrelated i j) ∧
    (∀ i j, ((w.scan i).isNull || (w.scan j).isNull) = true → w.Unordered i j) ∧
    ∀ (as : List Action) i j, i < w.scans.size → j < w.scans.size →
      (∀ a ∈ as, Leaves i a ∧ Leaves j a) →
      let v := as.foldl Action.run w
      (v.scan i).order (v.scan j) = (w.scan i).order (w.scan j) ∧
      (v.scan i).order? (v.scan j) = (w.scan i).order? (w.scan j) ∧
      (v.scan i).same (v.scan j) = (w.scan i).same (w.scan j) ∧
      (v.scan i).distance (v.scan j) = (w.scan i).distance (w.scan j) := by
  refine ⟨fun r => h.ordersRange, fun r r' i j => unrelated_of_ne,
    fun i j => h.unordered_of_isNull, ?_⟩
  intro as i j hi hj has v
  have hi : v.scan i = w.scan i := scan_foldl_of_leaves (fun a ha => (has a ha).1) hi
  have hj : v.scan j = w.scan j := scan_foldl_of_leaves (fun a ha => (has a ha).2) hj
  rw [hi, hj]
  exact ⟨rfl, rfl, rfl, rfl⟩

/-- Two arrays of the same integers, with two scans of the first, one of the second and one of
nothing. -/
def comparedScans : World :=
  [.construct 0 ⟨.array, .int, .tracked⟩ ⟨3, fun _ => .int 7, none⟩,
    .construct 0 ⟨.array, .int, .tracked⟩ ⟨3, fun _ => .int 7, none⟩, .newScan (some 0) 1,
    .newScan (some 0) 3, .newScan (some 1) 1, .newScan none 0].foldl Action.run (start defaultGrant)

/-- The first array is destroyed, and its scans compare as they did. -/
theorem comparisons_comparedScans :
    comparedScans.Ordered 0 1 .lt ∧ comparedScans.Unrelated 0 2 ∧ comparedScans.Unordered 2 3 ∧
      ([Action.resetOwner 0, .tick].foldl Action.run comparedScans).isAlive 0 = false ∧
      (([Action.resetOwner 0, .tick].foldl Action.run comparedScans).scan 0).order
        (([Action.resetOwner 0, .tick].foldl Action.run comparedScans).scan 1) = .ok .lt := by
  obtain ⟨hrange, hapart, hnull, hrun⟩ :=
    comparisons_cohere (w := comparedScans) (reachable_foldl _ _)
  have hlt : (comparedScans.scan 0).order (comparedScans.scan 1) = .ok .lt := by decide
  obtain ⟨o, ho⟩ := (hrange 0 (by decide)).total 0 1 (by decide) (by decide)
  obtain rfl := Except.ok.inj (ho.order.symm.trans hlt)
  refine ⟨ho, hapart 0 1 0 2 (by decide) (by decide) (by decide),
    hnull 2 3 (by decide), by decide, ?_⟩
  refine (hrun [.resetOwner 0, .tick] 0 1 (by decide) (by decide) ?_).1.trans hlt
  simp [Leaves]

end World

end Custody

import Mathlib.Algebra.BigOperators.Group.List.Basic
import Mathlib.Algebra.BigOperators.Group.Multiset.Basic

/-! Inventories. Each member of a list contributes some things, and the tally is all of
them. -/

namespace Custody

/-- The sum of what the members of a list contribute. -/
def tally {α β : Type} (f : α → Multiset β) (l : List α) : Multiset β := (l.map f).sum

variable {α β : Type} {f : α → Multiset β}

@[simp] theorem tally_nil : tally f [] = 0 := rfl

@[simp] theorem tally_cons (a : α) (l : List α) : tally f (a :: l) = f a + tally f l := by
  simp [tally]

@[simp] theorem tally_append (l m : List α) : tally f (l ++ m) = tally f l + tally f m := by
  simp [tally]

theorem tally_perm {l m : List α} (h : l.Perm m) : tally f l = tally f m := (h.map f).sum_eq

theorem tally_map {γ : Type} (g : γ → α) (l : List γ) :
    tally f (l.map g) = tally (fun b => f (g b)) l := by
  simp [tally, Function.comp_def]

theorem map_tally {γ : Type} (g : β → γ) (l : List α) :
    (tally f l).map g = tally (fun a => (f a).map g) l := by
  induction l with
  | nil => rfl
  | cons a l ih => simp [ih]

theorem tally_eq_zero {l : List α} (h : ∀ a ∈ l, f a = 0) : tally f l = 0 := by
  induction l with
  | nil => rfl
  | cons a l ih => simp [h a, ih fun b hb => h b (by simp [hb])]

theorem mem_tally {l : List α} {s : β} : s ∈ tally f l ↔ ∃ a ∈ l, s ∈ f a := by
  induction l with
  | nil => simp
  | cons a l ih => simp [ih]

theorem le_tally {l : List α} {i : Nat} {a : α} (h : l[i]? = some a) : f a ≤ tally f l := by
  induction l generalizing i with
  | nil => simp at h
  | cons c l ih =>
    cases i with
    | zero =>
      obtain rfl : c = a := by simpa using h
      exact Multiset.le_add_right _ _
    | succ i => exact (ih (i := i) (by simpa using h)).trans (Multiset.le_add_left _ _)

theorem add_le_tally {l : List α} {i j : Nat} {a b : α} (hi : l[i]? = some a) (hj : l[j]? = some b)
    (h : i ≠ j) : f a + f b ≤ tally f l := by
  induction l generalizing i j with
  | nil => simp at hi
  | cons c l ih =>
    cases i with
    | zero =>
      obtain rfl : c = a := by simpa using hi
      cases j with
      | zero => exact absurd rfl h
      | succ j => exact add_le_add_right (le_tally (i := j) (by simpa using hj)) _
    | succ i =>
      cases j with
      | zero =>
        obtain rfl : c = b := by simpa using hj
        rw [add_comm]
        exact add_le_add_right (le_tally (i := i) (by simpa using hi)) _
      | succ j =>
        have hle := ih (i := i) (j := j) (by simpa using hi) (by simpa using hj) (by omega)
        exact hle.trans (Multiset.le_add_left _ _)

theorem sum_map_set {M : Type} [AddCommMonoid M] {f : α → M} {l : List α} {i : Nat} {b : α}
    (h : l[i]? = some b) (a : α) : ((l.set i a).map f).sum + f b = (l.map f).sum + f a := by
  induction l generalizing i with
  | nil => simp at h
  | cons c l ih =>
    cases i with
    | zero =>
      obtain rfl : c = b := by simpa using h
      simp only [List.set_cons_zero, List.map_cons, List.sum_cons]
      ac_rfl
    | succ i =>
      have := ih (i := i) (by simpa using h)
      simp only [List.set_cons_succ, List.map_cons, List.sum_cons, add_assoc, this]

theorem tally_set {l : List α} {i : Nat} {b : α} (h : l[i]? = some b) (a : α) :
    tally f (l.set i a) + f b = tally f l + f a := sum_map_set h a

theorem tally_modify {l : List α} {i : Nat} {b : α} (h : l[i]? = some b) (g : α → α) :
    tally f (l.modify i g) + f b = tally f l + f (g b) := by
  have hm : l.modify i g = l.set i (g b) := by
    rw [List.modify_eq_set_getElem?, h]
    rfl
  rw [hm, tally_set h]

/-- A member is changed in one part of what it contributes. -/
theorem tally_modify_part {l : List α} {i : Nat} {b : α} (h : l[i]? = some b) {g : α → α}
    {x y rest : Multiset β} (hb : f b = x + rest) (hg : f (g b) = y + rest) :
    tally f (l.modify i g) + x = tally f l + y := by
  have hm := tally_modify h g (f := f)
  rw [hb, hg, ← add_assoc, ← add_assoc] at hm
  exact add_right_cancel hm

theorem tally_modify_congr {l : List α} {i : Nat} {g g' : α → α} (h : ∀ b, f (g b) = f (g' b)) :
    tally f (l.modify i g) = tally f (l.modify i g') := by
  cases hb : l[i]? with
  | none =>
    have hi : l.length ≤ i := by simpa using hb
    rw [List.modify_eq_self hi, List.modify_eq_self hi]
  | some b =>
    have hm := tally_modify hb g (f := f)
    rw [h b, ← tally_modify hb g' (f := f)] at hm
    exact add_right_cancel hm

theorem tally_modify_of_eq {l : List α} {i : Nat} {g : α → α}
    (h : ∀ b, l[i]? = some b → f (g b) = f b) : tally f (l.modify i g) = tally f l := by
  cases hb : l[i]? with
  | none =>
    congr 1
    exact List.modify_eq_self (by simpa using hb)
  | some b =>
    have := tally_modify hb g (f := f)
    rwa [h b hb, add_left_inj] at this

/-- A member that contributes `x` more at most. -/
theorem tally_modify_le {l : List α} {i : Nat} {g : α → α} {x : Multiset β}
    (h : ∀ b, f (g b) ≤ x + f b) : tally f (l.modify i g) ≤ x + tally f l := by
  cases hb : l[i]? with
  | none =>
    rw [List.modify_eq_self (by simpa using hb)]
    exact Multiset.le_add_left _ _
  | some b =>
    have hm := tally_modify hb g (f := f)
    refine le_of_add_le_add_right (a := f b) ?_
    calc tally f (l.modify i g) + f b = tally f l + f (g b) := hm
      _ ≤ tally f l + (x + f b) := add_le_add_right (h b) _
      _ = x + tally f l + f b := by ac_rfl

theorem tally_mapIdx_of_eq {l : List α} {g : Nat → α → α} (h : ∀ i a, f (g i a) = f a) :
    tally f (l.mapIdx g) = tally f l := by
  induction l generalizing g with
  | nil => rfl
  | cons a l ih => simp only [List.mapIdx_cons, tally_cons, h, ih fun i => h (i + 1)]

/-- Two exchanges in a row: `y` for `x`, by way of `t` and `t'`. -/
theorem exchange_trans {a a' t t' x y : Multiset β} (h : a' + t = a + t') (k : t' + x = t + y) :
    a' + x = a + y := by
  refine add_right_cancel (b := t) ?_
  calc a' + x + t = a' + t + x := by ac_rfl
    _ = a + (t' + x) := by rw [h, add_assoc]
    _ = a + y + t := by
      rw [k]
      ac_rfl

end Custody

import Custody.Proofs.SlotTable.Entries

/-! Visiting the registered observers one after the other. A visit sees a ticket and
its standing, may change the standing, and passes a state on to the next visit.
Telling all observers that the owner has gone is such a round, and so is `update`;
every round visits the entries in their order and keeps their tickets. -/

namespace Custody

namespace SlotTable

variable {t : SlotTable} {σ : Type}

/-- Visits the slots of a list, numbered from `n` on. -/
def visitFrom (f : σ → Ticket → Standing → σ × Standing) : Nat → σ → List Slot → σ × List Slot
  | _, a, [] => (a, [])
  | n, a, .used g s :: slots =>
    let r := f a ⟨UInt32.ofNat n, g⟩ s
    let rest := visitFrom f (n + 1) r.1 slots
    (rest.1, .used g r.2 :: rest.2)
  | n, a, slot :: slots =>
    let rest := visitFrom f (n + 1) a slots
    (rest.1, slot :: rest.2)

/-- Visits every registered observer, by slot index. -/
def visit (t : SlotTable) (f : σ → Ticket → Standing → σ × Standing) (a : σ) : σ × SlotTable :=
  let r := visitFrom f 0 a t.stored.toList
  (r.1, { t with stored := r.2.toArray })

/-- The state after visits to some entries. -/
def stateAfter (f : σ → Ticket → Standing → σ × Standing) (a : σ)
    (es : List (Ticket × Standing)) : σ :=
  es.foldl (fun a e => (f a e.1 e.2).1) a

theorem entriesFrom_cons (n : Nat) (slot : Slot) (slots : List Slot) :
    entriesFrom n (slot :: slots) = (entryAt n slot).toList ++ entriesFrom (n + 1) slots := by
  rw [entriesFrom, List.zipIdx_cons, List.filterMap_cons]
  cases entryAt n slot <;> rfl

theorem visitFrom_eq (f : σ → Ticket → Standing → σ × Standing) (n : Nat) (a : σ)
    (slots : List Slot) :
    visitFrom f n a slots = (stateAfter f a (entriesFrom n slots),
      slots.mapIdx fun i slot => match slot with
        | .used g s =>
          .used g (f (stateAfter f a (entriesFrom n (slots.take i))) ⟨UInt32.ofNat (n + i), g⟩ s).2
        | other => other) := by
  induction slots generalizing n a with
  | nil => rfl
  | cons slot slots ih =>
    have hnext : ∀ i, n + 1 + i = n + (i + 1) := by omega
    cases slot with
    | used g s =>
      simp only [visitFrom, ih, hnext, List.mapIdx_cons, entriesFrom_cons, List.take_succ_cons,
        entryAt, stateAfter, Option.toList, List.singleton_append, List.foldl_cons]
      rfl
    | free | retired =>
      simp only [visitFrom, ih, hnext, List.mapIdx_cons, entriesFrom_cons, List.take_succ_cons,
        entryAt, stateAfter, Option.toList, List.nil_append]

theorem entriesFrom_append (n : Nat) (xs ys : List Slot) :
    entriesFrom n (xs ++ ys) = entriesFrom n xs ++ entriesFrom (n + xs.length) ys := by
  rw [entriesFrom, List.zipIdx_append, List.filterMap_append]
  rfl

/-- The entries before a slot are those of the slots before it. -/
theorem Sound.entries_before (h : t.Sound) {i : Nat} (hi : i < t.stored.size) :
    t.entries.filter (fun e => e.1.index < UInt32.ofNat i) =
      entriesFrom 0 (t.stored.toList.take i) := by
  have hindex : ∀ j < t.stored.size, (UInt32.ofNat j).toNat = j := fun j hj =>
    UInt32.toNat_ofNat_of_lt' (h.lt_size (hj.trans_le h.fits))
  have hlen : (t.stored.toList.take i).length = i := by simp; omega
  rw [entries_eq]
  conv_lhs => rw [← List.take_append_drop i t.stored.toList]
  rw [entriesFrom_append, List.filter_append, hlen]
  have hbefore : (entriesFrom 0 (t.stored.toList.take i)).filter
      (fun e => e.1.index < UInt32.ofNat i) = entriesFrom 0 (t.stored.toList.take i) := by
    refine List.filter_eq_self.mpr fun e he => ?_
    obtain ⟨j, g, s, hj, rfl⟩ := mem_entriesFrom.mp he
    have hj : j < i := by
      have := (List.getElem?_eq_some_iff.mp hj).1
      omega
    simp only [Nat.zero_add, decide_eq_true_eq, UInt32.lt_iff_toNat_lt]
    rwa [hindex j (by omega), hindex i hi]
  have hafter : (entriesFrom (0 + i) (t.stored.toList.drop i)).filter
      (fun e => e.1.index < UInt32.ofNat i) = [] := by
    refine List.filter_eq_nil_iff.mpr fun e he => ?_
    obtain ⟨j, g, s, hj, rfl⟩ := mem_entriesFrom.mp he
    have hj : i + j < t.stored.size := by
      have := (List.getElem?_eq_some_iff.mp hj).1
      simp at this
      omega
    simp only [Nat.zero_add, decide_eq_true_eq, UInt32.lt_iff_toNat_lt]
    rw [hindex _ hj, hindex i hi]
    omega
  rw [hbefore, hafter, List.append_nil]

/-- A round of visits goes through the entries in their order, and changes each
standing as the visit to it says. -/
theorem Sound.visit_eq (h : t.Sound) (f : σ → Ticket → Standing → σ × Standing) (a : σ) :
    t.visit f a = (stateAfter f a t.entries,
      t.update fun k s => (f (stateAfter f a (t.entries.filter (·.1.index < k.index))) k s).2) := by
  simp only [visit, visitFrom_eq, entries_eq]
  congr 2
  apply Array.ext_getElem?
  intro i
  simp only [List.getElem?_toArray, List.getElem?_mapIdx, Array.getElem?_toList,
    Array.getElem?_mapIdx]
  by_cases hi : i < t.stored.size
  · have hb := h.entries_before hi
    rw [entries_eq] at hb
    cases t.stored[i]? with
    | none => rfl
    | some slot => cases slot <;> simp [hb]
  · simp [Array.getElem?_eq_none (show t.stored.size ≤ i by omega)]

theorem Sound.visit (h : t.Sound) (f : σ → Ticket → Standing → σ × Standing) (a : σ) :
    (t.visit f a).2.Sound := by
  rw [congrArg Prod.snd (h.visit_eq f a)]
  exact h.update fun k s => (f (stateAfter f a (t.entries.filter (·.1.index < k.index))) k s).2

theorem stateAfter_count (n : Nat) (es : List (Ticket × Standing)) :
    stateAfter (fun m _ s => (if s = .live then m + 1 else m, Standing.gone)) n es =
      n + (es.filter fun e => e.2 = .live).length := by
  induction es generalizing n with
  | nil => rfl
  | cons e es ih =>
    have := ih (if e.2 = .live then n + 1 else n)
    simp only [stateAfter, List.foldl_cons] at this ⊢
    rw [this]
    by_cases he : e.2 = .live
    · simp [he]
      omega
    · simp [he]

/-- Telling every observer that the owner has gone is a round of visits that counts
the live ones. -/
theorem Sound.dismissAll_eq_visit (h : t.Sound) :
    t.dismissAll = t.visit (fun n _ s => (if s = .live then n + 1 else n, .gone)) 0 := by
  rw [h.visit_eq, stateAfter_count, Nat.zero_add]
  rfl

theorem stateAfter_record (f : List (Ticket × Standing) → Ticket → Standing → Standing)
    (seen es : List (Ticket × Standing)) :
    stateAfter (fun seen k s => (seen ++ [(k, s)], f seen k s)) seen es = seen ++ es := by
  induction es generalizing seen with
  | nil => simp [stateAfter]
  | cons e es ih =>
    have := ih (seen ++ [e])
    simp only [stateAfter, List.foldl_cons] at this ⊢
    simp [this]

end SlotTable

end Custody

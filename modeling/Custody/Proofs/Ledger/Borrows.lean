import Custody.Proofs.Ledger.Books

/-! What guards do to the ledger: each is a loan of its record as long as it is in force. -/

namespace Custody

open Stake

namespace World

variable {w : World} {r : RecordId} {rec : Record}

/-- A guard is added, for a borrow that the record takes. -/
theorem step_lend {v : World} {b : Borrow} (guard : Guard)
    (hr : w.records[guard.record]? = some rec)
    (hrec : rec.isAlive = true ∨ w.loans guard.record ≠ 0)
    (hb : rec.borrow.take guard.access = .ok b)
    (hv : v = ((w.modifyRecord guard.record fun rec => { rec with borrow := b }).addGuard guard).2)
    (q : RecordId) : Holding.Step q (w.holding q) (v.holding q) := by
  have hrep : w.Replaces guard.record { rec with borrow := b } v := by
    rw [hv]
    exact (replaces_modifyRecord hr fun rec => { rec with borrow := b }).congr rfl rfl
  have hs : v.stakes = w.stakes := by
    rw [hv]
    exact stakes_modifyRecord_of_eq (w := w) fun _ _ => rfl
  have hguards : v.guards = (w.nextGuard, guard) :: w.guards := by
    rw [hv]
    rfl
  have hl (q : RecordId) := loans_cons hguards q
  refine step_at guard.record (x := 0) (y := 0) (zero_add _).symm (by rw [hs, zero_add])
    (by simp) (by simp) (fun q hq => ?_) (fun q hq => ?_) (fun c => ?_) q
  · rw [hrep q, if_neg (Ne.symm hq)]
  · rw [hl q, if_neg (Ne.symm hq)]
  · rw [hrep.self, hr, hl, if_pos rfl]
    exact .lend hrec hb

theorem step_lendTo (s : Source) (a : Access) (q : RecordId) :
    Holding.Step q (w.holding q) ((w.lend s a).2.holding q) := by
  unfold lend
  split
  · exact .rest _
  · rename_i r _
    split
    · exact .rest _
    · rename_i rec hrec
      split
      · exact .rest _
      · exact .rest _
      · rename_i items borrow halive hborrow
        have hal : rec.isAlive = true := by
          unfold Record.alive at halive
          split_ifs at halive with ho
          cases hobj : rec.object with
          | none => simp [hobj] at halive
          | some items => simp [Record.isAlive, hobj, ho]
        exact step_lend ⟨r, a, s, .whole⟩ hrec (.inl hal) hborrow rfl q

theorem step_duplicate (g : Nat) (q : RecordId) :
    Holding.Step q (w.holding q) ((w.duplicate g).2.holding q) := by
  unfold duplicate
  split
  · rename_i r source part hguard
    split
    · rename_i borrow hshare
      obtain ⟨rec, hrec, hb⟩ := Option.map_eq_some_iff.mp hshare
      have hl : w.loans r ≠ 0 := by
        have hmem := mem_loans.mpr ⟨_, mem_guards hguard, rfl, rfl⟩
        exact fun h0 => Multiset.notMem_zero _ (h0 ▸ hmem)
      exact step_lend ⟨r, .shared, source, part⟩ hrec (.inr hl) hb rfl q
    · exact .rest _
  · exact .rest _

/-- Taking the only entry under a key out of a list. -/
theorem perm_filter_of_lookup {α : Type} {l : List (Nat × α)} (hl : (l.map Prod.fst).Nodup)
    {g : Nat} {x : α} (h : l.lookup g = some x) :
    l.Perm ((g, x) :: l.filter fun e => e.1 ≠ g) := by
  obtain ⟨l₁, l₂, rfl, -⟩ := List.lookup_eq_some_iff.mp h
  rw [List.map_append, List.map_cons, List.nodup_middle, List.nodup_cons, ← List.map_append] at hl
  have hne : ∀ e ∈ l₁ ++ l₂, e.1 ≠ g := by
    rintro e he rfl
    have hmem := List.mem_map_of_mem (f := Prod.fst) he
    exact hl.1 hmem
  have hf : ((l₁ ++ (g, x) :: l₂).filter fun e => e.1 ≠ g) = l₁ ++ l₂ := by
    have hself := List.filter_eq_self (p := fun e : Nat × α => decide (e.1 ≠ g)).mpr
      fun e he => by simpa using hne e he
    rw [List.filter_append] at hself ⊢
    simpa using hself
  rw [hf]
  exact List.perm_middle

theorem step_endBorrow (h : w.Sound) (g : Nat) (q : RecordId) :
    Holding.Step q (w.holding q) ((w.endBorrow g).holding q) := by
  cases hg : w.guard? g with
  | none =>
    simp only [endBorrow, hg]
    exact .rest _
  | some guard =>
    obtain ⟨rec, hrec⟩ := h.record_of_guard (mem_guards hg)
    have hrep := replaces_modifyRecord hrec
      fun rec => { rec with borrow := rec.borrow.release guard.access }
    have hl (q : RecordId) : w.loans q =
        if guard.record = q then guard.access ::ₘ (w.endBorrow g).loans q
        else (w.endBorrow g).loans q := by
      have hp := ((perm_filter_of_lookup h.distinct hg).filter fun e => e.2.record = q).map
        fun e => e.2.access
      have hend : (w.endBorrow g).guards = w.guards.filter fun e => e.1 ≠ g := by
        simp only [endBorrow, hg]
      rw [loans, loans, hend, Multiset.coe_eq_coe.mpr hp, List.filter_cons]
      split_ifs with h₁ h₂ h₂ <;> simp_all
    have hs : (w.endBorrow g).stakes = w.stakes := by
      simp only [endBorrow, hg]
      exact stakes_modifyRecord_of_eq (w := w) fun _ _ => rfl
    have hr : w.Replaces guard.record { rec with borrow := rec.borrow.release guard.access }
        (w.endBorrow g) := by
      simp only [endBorrow, hg]
      exact hrep.congr rfl rfl
    refine step_at guard.record (x := 0) (y := 0) (zero_add _).symm (by rw [hs, zero_add])
      (by simp) (by simp) (fun q hq => ?_) (fun q hq => ?_) (fun c => ?_) q
    · rw [hr q, if_neg (Ne.symm hq)]
    · rw [hl q, if_neg (Ne.symm hq)]
    · rw [hr.self, hrec, hl, if_pos rfl]
      exact .redeem

/-- What is done to guards does not matter, if they keep their record and access. -/
theorem loans_map {v : World} {f : Nat × Guard → Nat × Guard} (hv : v.guards = w.guards.map f)
    (hr : ∀ g, (f g).2.record = g.2.record) (ha : ∀ g, (f g).2.access = g.2.access)
    (q : RecordId) : v.loans q = w.loans q := by
  have hfilter : ((fun g : Nat × Guard => decide (g.2.record = q)) ∘ f) =
      fun g => decide (g.2.record = q) := funext fun g => by simp only [Function.comp_apply, hr]
  have hmap : ((fun g : Nat × Guard => g.2.access) ∘ f) = fun g => g.2.access :=
    funext fun g => ha g
  rw [loans, loans, hv, List.filter_map, List.map_map, hfilter, hmap]

theorem step_narrow (g i : Nat) (q : RecordId) :
    Holding.Step q (w.holding q) ((w.narrow g i).holding q) := by
  have hl : (w.narrow g i).loans q = w.loans q := by
    refine loans_map (w := w) rfl (fun h => ?_) (fun h => ?_) q
    · split_ifs <;> rfl
    · split_ifs <;> rfl
  have hv : (w.narrow g i).holding q = w.holding q := by
    rw [holding, holding, hl]
    rfl
  rw [hv]
  exact .rest _

end World

end Custody

import Custody.Proofs.Ledger.Holding

/-! The ledger of a world: for each record its holding. `Sound` says that every holding
agrees with its record and that guards have numbers of their own. This module has the
tools that show of one action which holding it changes; the actions follow in
`Custody.Proofs.Ledger.Ticks` and `Custody.Proofs.Ledger.Actions`. -/

namespace Custody

open Stake

namespace World

/-- The guards in force, and the number of the next one. -/
def book (w : World) : List (Nat × Guard) × Nat := (w.guards, w.nextGuard)

/-- The guards on a record's object, by their access. -/
def loans (w : World) (r : RecordId) : Multiset Access :=
  ((w.guards.filter fun g => g.2.record = r).map fun g => g.2.access : List Access)

/-- The stakes in one record. -/
def stakesIn (w : World) (r : RecordId) : Multiset Stake := w.stakes.filter fun s => s.record = r

def holding (w : World) (r : RecordId) : Holding := ⟨w.records[r]?, w.stakesIn r, w.loans r⟩

/-- Every record agrees with its handles, its pending tasks and its guards. -/
structure Sound (w : World) : Prop where
  holds : ∀ r, (w.holding r).Sound r
  distinct : (w.guards.map Prod.fst).Nodup
  numbered : ∀ g ∈ w.guards, g.1 < w.nextGuard

theorem sound_start (grant : Nat) : (start grant).Sound where
  holds _ := ⟨rfl, rfl⟩
  distinct := List.nodup_nil
  numbered _ hg := by cases hg

variable {w v : World}

theorem mem_stakesIn {r : RecordId} {s : Stake} : s ∈ w.stakesIn r ↔ s ∈ w.stakes ∧ s.record = r :=
  Multiset.mem_filter

theorem count_stakesIn (s : Stake) : (w.stakesIn s.record).count s = w.stakes.count s :=
  Multiset.count_filter_of_pos rfl

theorem filter_of_forall {x : Multiset Stake} {r : RecordId} (h : ∀ s ∈ x, s.record = r)
    (q : RecordId) : x.filter (fun s => s.record = q) = if q = r then x else 0 := by
  split_ifs with hq
  · exact Multiset.filter_eq_self.mpr fun s hs => (h s hs).trans hq.symm
  · exact Multiset.filter_eq_nil.mpr fun s hs hsq => hq (hsq.symm.trans (h s hs))

theorem stakesIn_add {x : Multiset Stake} {r : RecordId} (h : w.stakes = x + v.stakes)
    (hx : ∀ s ∈ x, s.record = r) (q : RecordId) :
    w.stakesIn q = (if q = r then x else 0) + v.stakesIn q := by
  rw [stakesIn, h, Multiset.filter_add, filter_of_forall hx, stakesIn]

theorem stakesIn_of_cons {s : Stake} {r : RecordId} (h : w.stakes = {s} + v.stakes)
    (hs : s.record = r) : w.stakesIn r = s ::ₘ v.stakesIn r := by
  rw [stakesIn_add h (by simpa using hs), if_pos rfl, Multiset.singleton_add]

theorem mem_loans {r : RecordId} {a : Access} :
    a ∈ w.loans r ↔ ∃ g ∈ w.guards, g.2.record = r ∧ g.2.access = a := by
  simp [loans, and_assoc]

theorem guards_of_book (h : v.book = w.book) : v.guards = w.guards := congrArg Prod.fst h

theorem loans_congr (h : v.book = w.book) (r : RecordId) : v.loans r = w.loans r := by
  rw [loans, loans, guards_of_book h]

theorem loans_cons {w : World} {g : Nat} {guard : Guard}
    (h : v.guards = (g, guard) :: w.guards) (r : RecordId) :
    v.loans r = if guard.record = r then guard.access ::ₘ w.loans r else w.loans r := by
  unfold loans
  rw [h, List.filter_cons]
  split_ifs with h₁ h₂ h₂ <;> simp_all

/-! ### What soundness says of one record -/

theorem Sound.agrees (h : w.Sound) {r : RecordId} {rec : Record} (hr : w.records[r]? = some rec) :
    Holding.Agrees r rec (w.stakesIn r) (w.loans r) := by
  have := h.holds r
  simpa only [holding, Holding.Sound, hr] using this

/-- Nothing refers to a record that is not there. -/
theorem Sound.vacant (h : w.Sound) {r : RecordId} (hr : w.records[r]? = none) :
    w.stakesIn r = 0 ∧ w.loans r = 0 := by
  have := h.holds r
  simpa only [holding, Holding.Sound, hr] using this

theorem Sound.record_of_mem (h : w.Sound) {s : Stake} {r : RecordId} (hs : s ∈ w.stakes)
    (hsr : s.record = r) : ∃ rec, w.records[r]? = some rec := by
  cases hr : w.records[r]? with
  | some rec => exact ⟨rec, rfl⟩
  | none =>
    have hmem := mem_stakesIn.mpr ⟨hs, hsr⟩
    rw [(h.vacant hr).1] at hmem
    exact absurd hmem (Multiset.notMem_zero s)

theorem Sound.record_of_guard (h : w.Sound) {g : Nat × Guard} (hg : g ∈ w.guards) :
    ∃ rec, w.records[g.2.record]? = some rec := by
  cases hr : w.records[g.2.record]? with
  | some rec => exact ⟨rec, rfl⟩
  | none =>
    have hmem := mem_loans.mpr ⟨g, hg, rfl, rfl⟩
    rw [(h.vacant hr).2] at hmem
    exact absurd hmem (Multiset.notMem_zero _)

/-- A record has an owner exactly as long as its object is alive. -/
theorem Sound.owns_iff (h : w.Sound) (r : RecordId) : .owns r ∈ w.stakes ↔ w.isAlive r = true := by
  cases hr : w.records[r]? with
  | none =>
    have hno : .owns r ∉ w.stakes := fun hmem => by
      obtain ⟨rec, hrec⟩ := h.record_of_mem hmem rfl
      cases hr.symm.trans hrec
    simp [isAlive, hr, hno]
  | some rec =>
    have ho := (h.agrees hr).owned
    rw [← Multiset.count_pos, ← count_stakesIn, Stake.record, ho]
    cases ha : rec.isAlive <;> simp [isAlive, hr, ha]

/-- An object is borrowed exactly if a guard is on it. -/
theorem Sound.isBorrowed_iff (h : w.Sound) (r : RecordId) :
    w.isBorrowed r = true ↔ ∃ g ∈ w.guards, g.2.record = r := by
  have hl : w.loans r ≠ 0 ↔ ∃ g ∈ w.guards, g.2.record = r := by
    simp [Multiset.eq_zero_iff_forall_notMem, mem_loans]
  rw [← hl]
  cases hr : w.records[r]? with
  | none => simp [isBorrowed, hr, (h.vacant hr).2]
  | some rec => simpa [isBorrowed, hr] using (h.agrees hr).lent.isHeld_iff

/-! ### Changes to one holding -/

/-- Nothing changes for any record. -/
theorem step_rest (hr : v.records = w.records) (hs : v.stakes = w.stakes) (hg : v.book = w.book)
    (r : RecordId) : Holding.Step r (w.holding r) (v.holding r) := by
  have hv : v.holding r = w.holding r := by
    rw [holding, holding, hr, stakesIn, stakesIn, hs, loans_congr hg]
  rw [hv]
  exact .rest _

/-- Stakes in one record do not matter to another. -/
theorem holding_of_ne {x : Multiset Stake} {r q : RecordId} (hr : v.records = w.records)
    (hg : v.book = w.book) (hs : w.stakes = x + v.stakes) (hx : ∀ s ∈ x, s.record = r)
    (hq : q ≠ r) : v.holding q = w.holding q := by
  rw [holding, holding, hr, loans_congr hg, stakesIn_add hs hx, if_neg hq, zero_add]

/-- One record changes, and stakes `x` in it become stakes `y` in it. -/
theorem step_at (r₀ : RecordId) {x y rest : Multiset Stake} (hw : w.stakes = x + rest)
    (hv : v.stakes = y + rest) (hx : ∀ s ∈ x, s.record = r₀) (hy : ∀ s ∈ y, s.record = r₀)
    (hr : ∀ r, r ≠ r₀ → v.records[r]? = w.records[r]?) (hl : ∀ r, r ≠ r₀ → v.loans r = w.loans r)
    (h : ∀ c, Holding.Step r₀ ⟨w.records[r₀]?, x + c, w.loans r₀⟩
      ⟨v.records[r₀]?, y + c, v.loans r₀⟩)
    (r : RecordId) : Holding.Step r (w.holding r) (v.holding r) := by
  simp only [holding, stakesIn, hw, hv, Multiset.filter_add, filter_of_forall hx,
    filter_of_forall hy]
  by_cases hrr : r = r₀
  · subst hrr
    simpa using h _
  · simp only [if_neg hrr, hr r hrr, hl r hrr]
    exact .rest _

/-- `v` has the records of `w`, but `new` for record `r`. -/
def Replaces (w : World) (r : RecordId) (new : Record) (v : World) : Prop :=
  ∀ q, v.records[q]? = if r = q then some new else w.records[q]?

theorem replaces_modifyRecord {r : RecordId} {rec : Record} (hr : w.records[r]? = some rec)
    (f : Record → Record) : w.Replaces r (f rec) (w.modifyRecord r f) := by
  intro q
  simp only [modifyRecord, Array.getElem?_modify]
  split_ifs with hq
  · subst hq
    rw [hr, Option.map_some]
  · rfl

theorem replaces_self {r : RecordId} {rec : Record} (hr : w.records[r]? = some rec) :
    w.Replaces r rec w := by
  intro q
  split_ifs with hq
  · exact hq ▸ hr
  · rfl

theorem Replaces.self {r : RecordId} {new : Record} (h : w.Replaces r new v) :
    v.records[r]? = some new := by rw [h r, if_pos rfl]

theorem Replaces.trans {u : World} {r : RecordId} {a b : Record} (h : w.Replaces r a v)
    (k : v.Replaces r b u) : w.Replaces r b u := by
  intro q
  rw [k q, h q]
  split_ifs <;> rfl

theorem Replaces.congr {w' v' : World} {r : RecordId} {new : Record} (h : w.Replaces r new v)
    (hw : w'.records = w.records) (hv : v'.records = v.records) : w'.Replaces r new v' := by
  intro q
  rw [hv, hw, h q]

/-- One record is replaced, and no guard changes. -/
theorem step_replace {r₀ : RecordId} {rec new : Record} {x y rest : Multiset Stake}
    (hrec : w.records[r₀]? = some rec) (hr : w.Replaces r₀ new v) (hg : v.book = w.book)
    (hw : w.stakes = x + rest) (hv : v.stakes = y + rest)
    (hx : ∀ s ∈ x, s.record = r₀) (hy : ∀ s ∈ y, s.record = r₀)
    (h : ∀ c l, Holding.Step r₀ ⟨some rec, x + c, l⟩ ⟨some new, y + c, l⟩) (r : RecordId) :
    Holding.Step r (w.holding r) (v.holding r) := by
  refine step_at r₀ hw hv hx hy (fun q hq => ?_) (fun q _ => loans_congr hg q) (fun c => ?_) r
  · rw [hr q, if_neg (Ne.symm hq)]
  · rw [hr.self, hrec, loans_congr hg]
    exact h c _

end World

end Custody

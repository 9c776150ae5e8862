import Custody.Proofs.Ledger.Sources
import Custody.Proofs.Lending
import Custody.Proofs.Validity
import Custody.Proofs.Walks.Tables

/-! Owners. Every owner that exists is in a variable of the program, in an element of an
object that is there or is just being destroyed, or on its way out; `World.allOwners` lists
them. No allocation is held by two of them, the object of the one that is held is alive, and
an allocation without an owner never gets one again. -/

namespace Custody

open Stake

/-- The owners in the elements of an object. -/
def Record.owners (rec : Record) : List Owner := (rec.object.getD []).map Item.link

/-- The owners that a task will drop. -/
def Task.owners : Task → List Owner
  | .dropOwner o => [o]
  | .dropItem i => [i.link]
  | .dropSoft _ | .retire _ | .forget _ | .abandon .. => []

namespace World

variable {v w : World} {r : RecordId} {rec : Record}

/-- The owners that exist, empty ones too, one entry for each. -/
def allOwners (w : World) : List Owner :=
  w.owners.toList ++ w.records.toList.flatMap Record.owners ++ w.pending.flatMap Task.owners

/-! ### The list and the inventory -/

theorem count_ofOwner (r : RecordId) (o : Owner) :
    (ofOwner o).count (.owns r) = [o].count (some r) := by
  cases o with
  | none => rfl
  | some q =>
    by_cases hq : q = r
    · simp [hq]
    · simp [hq, Ne.symm hq]

theorem count_ofItem (r : RecordId) (i : Item) :
    (ofItem i).count (.owns r) = [i.link].count (some r) := by
  rw [ofItem, Multiset.count_add, count_ofOwner,
    Multiset.count_eq_zero_of_notMem (owns_notMem_ofSoft i.back), add_zero]

theorem count_tally {α : Type} {f : α → Multiset Stake} {g : α → List Owner}
    (h : ∀ a, (f a).count (.owns r) = (g a).count (some r)) (l : List α) :
    (tally f l).count (.owns r) = (l.flatMap g).count (some r) := by
  induction l with
  | nil => rfl
  | cons a l ih =>
    rw [tally_cons, Multiset.count_add, h a, ih, List.flatMap_cons, List.count_append]

/-- Owners are listed as often as the inventory has them. -/
theorem count_allOwners (w : World) (r : RecordId) :
    w.allOwners.count (some r) = w.stakes.count (.owns r) := by
  have hnone {α : Type} {f : α → Multiset Stake} (hf : ∀ a, .owns r ∉ f a) (l : List α) :
      (tally f l).count (.owns r) = 0 := by
    apply Multiset.count_eq_zero_of_notMem
    intro hmem
    obtain ⟨a, -, ha⟩ := mem_tally.mp hmem
    exact hf a ha
  have hscan (c : Scan) : .owns r ∉ ofScan c := owns_notMem_ofSoft c.array
  have hwalk (k : Walk) : .owns r ∉ ofWalk k := by simp [ofWalk, ofScan]
  have hrec (rec : Record) : (ofRecord rec).count (.owns r) = rec.owners.count (some r) := by
    rw [ofRecord, Record.owners, count_tally (count_ofItem r), List.map_eq_flatMap]
  have htask (t : Task) : (ofTask t).count (.owns r) = t.owners.count (some r) := by
    cases t with
    | dropOwner o => exact count_ofOwner r o
    | dropItem i => exact count_ofItem r i
    | dropSoft s => exact Multiset.count_eq_zero_of_notMem (owns_notMem_ofSoft s)
    | retire | forget | abandon => simp [ofTask, Task.owners]
  simp only [allOwners, stakes, List.count_append, Multiset.count_add, count_tally hrec,
    count_tally htask, count_tally (count_ofOwner r), hnone (owns_notMem_ofSoft (r := r)),
    hnone hscan, hnone hwalk, List.flatMap_singleton', add_zero]

theorem mem_allOwners : some r ∈ w.allOwners ↔ w.IsOwned r := by
  rw [← owns_mem_stakes, ← Multiset.count_pos, ← count_allOwners, List.count_pos_iff]

theorem mem_allOwners_of_owner {i : Nat} (h : w.owner i = some r) : some r ∈ w.allOwners := by
  have hi : w.owners[i]? = some (some r) := by
    unfold owner owner? at h
    cases hi : w.owners[i]? with
    | none => simp [hi] at h
    | some o =>
      rw [hi, Option.getD_some] at h
      rw [h]
  simp [allOwners, Array.mem_of_getElem? hi]

/-! ### One owner -/

theorem Sound.count_allOwners_le_one (h : w.Sound) (r : RecordId) :
    w.allOwners.count (some r) ≤ 1 := by
  rw [count_allOwners]
  by_cases hr : .owns r ∈ w.stakes
  · exact h.count_owns_le_one hr
  · rw [Multiset.count_eq_zero_of_notMem hr]
    exact Nat.zero_le 1

/-- What is owned is there, in its block, and has its owner. -/
theorem Sound.record_of_owner (h : w.Sound) (hr : some r ∈ w.allOwners) :
    ∃ rec items b, w.records[r]? = some rec ∧ rec.orphaned = false ∧ rec.object = some items ∧
      rec.block = some b := by
  have halive := (h.isOwned_iff r).mp (mem_allOwners.mp hr)
  obtain ⟨rec, hrec, halive⟩ := isAlive_iff.mp halive
  obtain ⟨ho, hobj⟩ : rec.orphaned = false ∧ rec.object.isSome = true := by
    simpa [Record.isAlive] using halive
  obtain ⟨items, hitems⟩ := Option.isSome_iff_exists.mp hobj
  obtain ⟨b, hb⟩ := Option.isSome_iff_exists.mp ((h.agrees hrec).housed hobj)
  exact ⟨rec, items, b, hrec, ho, hitems, hb⟩

/-- A borrow through an owner is refused for another borrow, if at all. -/
theorem Sound.open?_ne_gone (h : w.Sound) (hr : some r ∈ w.allOwners) (a : Access) :
    w.open? r a ≠ .error .gone := by
  obtain ⟨rec, items, b, hrec, ho, hitems, -⟩ := h.record_of_owner hr
  have ht := take_ne_gone rec.borrow a
  simp only [open?, hrec, Record.open?, Record.alive, ho, hitems, bind, Except.bind]
  cases hb : rec.borrow.take a with
  | error e => simpa [hb] using ht
  | ok b => simp [pure, Except.pure]

theorem Sound.ownerAddress_eq (h : w.Sound) (hr : some r ∈ w.allOwners) :
    ∃ b, w.block? r = some b ∧ w.ownerAddress (some r) = .ok b.payload := by
  obtain ⟨rec, items, b, hrec, -, hitems, hb⟩ := h.record_of_owner hr
  refine ⟨b, by rw [block?_of_record hrec, hb], ?_⟩
  simp [ownerAddress, held, hrec, Record.address?, hitems, hb, bind, Except.bind]

/-- An owner in a variable borrows what it holds, or is told that it holds nothing or that
another borrow is in the way. -/
theorem Sound.lend_owner_ne_gone (h : w.Sound) (i : Nat) (a : Access) :
    (w.lend (.owner i) a).1 ≠ .error .gone := by
  cases hi : w.owner i with
  | none => simp [lend, reach, held, hi]
  | some r =>
    obtain ⟨rec, items, b, hrec, ho, hitems, -⟩ := h.record_of_owner (mem_allOwners_of_owner hi)
    have ht := take_ne_gone rec.borrow a
    simp only [lend, reach, held, hi, hrec, Record.alive, ho, hitems]
    cases hb : rec.borrow.take a with
    | error e => simpa [hb] using ht
    | ok b => simp

/-- The same for the elements of what it holds. -/
theorem Sound.lendElement_owner_ne_gone (h : w.Sound) (i : Nat) (a : Access) (n : UInt64) :
    ((Op.lendElement (.owner i) a n).run.run w).1 ≠ .error (.refused (.access .gone)) := by
  cases hl : (w.lend (.owner i) a).1 with
  | error e =>
    rw [Op.run_lendElement_of_error hl]
    have hne := h.lend_owner_ne_gone i a
    simpa [hl] using hne
  | ok g =>
    rw [Op.run_lendElement_of_ok hl]
    split
    · simp
    · rename_i e he
      rw [elementAt_eq_error he]
      simp

/-- What has lost its owner has none again. -/
theorem Sound.notMem_allOwners_later (h : w.Sound) (hr : w.records[r]? = some rec)
    (hno : some r ∉ w.allOwners) (hv : w.Reaches v) : some r ∉ v.allOwners := by
  have hdead : rec.isAlive = false := by
    have hw : w.isAlive r = false := by rwa [← h.not_isOwned_iff, ← mem_allOwners]
    simpa [isAlive, hr] using hw
  obtain ⟨new, hnew, hlater⟩ := h.later hv hr
  rw [mem_allOwners, (h.reaches hv).not_isOwned_iff]
  simp [isAlive, hnew, hlater.dead hdead]

/-! ### Resets -/

theorem resetOwner_of_error {i : Nat} {e : AccessRefusal} (he : (w.resetOwner i).1 = .error e) :
    (w.resetOwner i).2 = w := by
  unfold resetOwner at he ⊢
  split at he
  · cases he
  · split_ifs at he ⊢
    rfl

theorem owner_setOwner_none (i : Nat) : (w.setOwner i none).owner i = none := by
  simp only [owner, owner?, setOwner, Array.getElem?_setIfInBounds]
  split_ifs <;> rfl

theorem setOwner_of_none {i : Nat} (h : w.owner i = none) : w.setOwner i none = w := by
  have howners : w.owners.setIfInBounds i none = w.owners := by
    refine Array.ext_getElem? fun j => ?_
    rw [Array.getElem?_setIfInBounds]
    split_ifs with hj hlt
    · subst hj
      simpa [owner, owner?, Array.getElem?_eq_getElem hlt] using h.symm
    · exact (Array.getElem?_eq_none (by omega)).symm
    · rfl
  rw [setOwner, howners]

/-- The owner is empty before anything is destroyed. -/
theorem owner_resetOwner_of_ok {i : Nat} (ho : (w.resetOwner i).1 = .ok ()) :
    (w.resetOwner i).2.owner i = none := by
  unfold resetOwner at ho ⊢
  split at ho
  · assumption
  · rename_i r _
    split_ifs at ho ⊢
    have hands := hands_demolish (w := (w.setOwner i none).schedule [.forget r]) r
    have howner := congrFun (owner?_congr hands) i
    rw [owner, howner]
    exact owner_setOwner_none i

/-! ### Every reachable world -/

/-- In every reachable world, in the midst of destruction too, an allocation is held by one
owner at most. What an owner holds is there and was not orphaned, so that nobody who borrows
it, its elements or its address through the owner is told that it is gone. A reset that is
refused leaves the owner as it is, and one that is accepted leaves it empty. An allocation
without an owner has none from then on. -/
theorem single_owner (h : w.Reachable) :
    (∀ r, w.allOwners.count (some r) ≤ 1) ∧
    (∀ r, some r ∈ w.allOwners →
      (∃ rec items, w.records[r]? = some rec ∧ rec.orphaned = false ∧ rec.object = some items) ∧
      (∀ a, w.open? r a ≠ .error .gone) ∧
      (∀ n, (w.open? r .shared >>= fun items => elementAt items n) ≠ .error .gone) ∧
      ∃ b, w.block? r = some b ∧ w.ownerAddress (some r) = .ok b.payload) ∧
    (∀ i a, (w.lend (.owner i) a).1 ≠ .error .gone ∧
      ∀ n, ((Op.lendElement (.owner i) a n).run.run w).1 ≠ .error (.refused (.access .gone))) ∧
    (∀ i, (∀ e, (w.resetOwner i).1 = .error e → (w.resetOwner i).2 = w) ∧
      ((w.resetOwner i).1 = .ok () → (w.resetOwner i).2.owner i = none)) ∧
    ∀ r rec, w.records[r]? = some rec → some r ∉ w.allOwners →
      ∀ v, w.Reaches v → some r ∉ v.allOwners := by
  have hs := h.sound
  refine ⟨hs.count_allOwners_le_one, fun r hr => ⟨?_, hs.open?_ne_gone hr, fun n => ?_,
      hs.ownerAddress_eq hr⟩,
    fun i a => ⟨hs.lend_owner_ne_gone i a, hs.lendElement_owner_ne_gone i a⟩,
    fun i => ⟨fun e => resetOwner_of_error, owner_resetOwner_of_ok⟩,
    fun r rec hr hno v hv => hs.notMem_allOwners_later hr hno hv⟩
  · obtain ⟨rec, items, b, hrec, ho, hitems, -⟩ := hs.record_of_owner hr
    exact ⟨rec, items, hrec, ho, hitems⟩
  · have hne := hs.open?_ne_gone hr .shared
    cases hopen : w.open? r .shared with
    | error e => simpa [hopen, bind, Except.bind] using hne
    | ok items =>
      intro hgone
      have he := elementAt_eq_error (show elementAt items n = .error .gone from hgone)
      cases he

/-- A node whose owner was refused a reset, since a guard is on the node, and then moved to
another variable. -/
def refusedReset : World :=
  [.construct 0 ⟨.one, .node, .tracked⟩ (.single (.node 7 .plain)), .newOwner,
    .newSoft, .attach 0 (.soft 0), .lend (.soft (.soft 0)) .shared, .resetOwner 0,
    .swapOwners 0 1].foldl Action.run (start defaultGrant)

/-- The owner went, and the node stays for the guard. -/
def ownerless : World := [.discardOwner 1, .tick].foldl Action.run refusedReset

theorem single_owner_refusedReset :
    refusedReset.allOwners = [none, some 0, none] ∧
      (refusedReset.lend (.owner 1) .exclusive).1 ≠ .error .gone ∧
      ownerless.object? 0 = some [.node 7 .plain none none] ∧
      ∀ v, ownerless.Reaches v → some 0 ∉ v.allOwners := by
  have hreset : refusedReset.Reachable := reachable_foldl _ _
  have hless : ownerless.Reachable := hreset.reaches (reaches_foldl _ _)
  have hrec : ∃ rec, ownerless.records[0]? = some rec :=
    Option.isSome_iff_exists.mp (by decide)
  obtain ⟨rec, hrec⟩ := hrec
  obtain ⟨-, -, hlend, -⟩ := single_owner hreset
  obtain ⟨-, -, -, -, hlater⟩ := single_owner hless
  exact ⟨by decide, (hlend 1 .exclusive).1, by decide, hlater 0 rec hrec (by decide)⟩

end World

end Custody

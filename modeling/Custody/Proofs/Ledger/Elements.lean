import Custody.Proofs.Ledger.Books

/-! What is done to the elements of a borrowed object, and what it does to the ledger. Handles
in elements are exchanged with handles in variables; an owner in an element is emptied like one
in a variable. -/

namespace Custody

open Stake

namespace World

variable {w : World} {r : RecordId} {rec : Record}

/-! ### Elements -/

/-- `v` has the records of `w`, with other elements in some objects. -/
def Edits (w v : World) : Prop :=
  ∀ q : RecordId, v.records[q]? = w.records[q]? ∨ ∃ (rec : Record) (f : List Item → List Item),
    w.records[q]? = some rec ∧ (∀ items, (f items).length = items.length) ∧
      v.records[q]? = some { rec with object := rec.object.map f }

theorem Edits.refl : w.Edits w := fun _ => .inl rfl

theorem edits_modifyRecord (r : RecordId) (f : List Item → List Item)
    (hf : ∀ items, (f items).length = items.length) :
    w.Edits (w.modifyRecord r fun rec => { rec with object := rec.object.map f }) := by
  intro q
  simp only [modifyRecord, Array.getElem?_modify]
  split_ifs
  · cases hq : w.records[q]? with
    | none => exact .inl rfl
    | some rec => exact .inr ⟨rec, f, rfl, hf, rfl⟩
  · exact .inl rfl

theorem step_edit {v : World} {q : RecordId} (h : w.Edits v) (hg : v.book = w.book)
    (hs : v.stakesIn q = w.stakesIn q) : Holding.Step q (w.holding q) (v.holding q) := by
  rw [holding, holding, hs, loans_congr hg]
  obtain hq | ⟨rec, f, hrec, hf, hq⟩ := h q
  · rw [hq]
    exact .rest _
  · rw [hq, hrec]
    exact .edit f hf

theorem edits_put (g : Nat) (x : Int) : w.Edits (w.put g x) := by
  unfold put
  split
  · exact .refl
  · exact edits_modifyRecord _ _ fun _ => List.length_mapIdx

theorem edits_exchangeLink (g i j : Nat) : w.Edits (w.exchangeLink g i j) := by
  unfold exchangeLink
  split
  · split
    · split_ifs
      · exact edits_modifyRecord _ _ fun _ => List.length_set
      · exact .refl
    · exact .refl
  · exact .refl

theorem edits_exchangeBack (g i : Nat) (p : SoftPlace) : w.Edits (w.exchangeBack g i p) := by
  unfold exchangeBack
  split
  · rename_i guard s _ _
    split
    · rename_i item _
      split_ifs
      · have hm :=
          edits_modifyRecord (w := w) guard.record (fun items => items.set i (item.withBack s))
          fun _ => List.length_set
        cases p <;> exact hm
      · exact .refl
    · exact .refl
  · exact .refl

theorem step_put (g : Nat) (x : Int) (q : RecordId) :
    Holding.Step q (w.holding q) ((w.put g x).holding q) := by
  have hs : (w.put g x).stakesIn q = w.stakesIn q := by rw [stakesIn, stakes_put, stakesIn]
  exact step_edit (edits_put g x) (keeps_run (a := .put g x) trivial).book hs

theorem step_exchangeLink (g i j : Nat) (q : RecordId) :
    Holding.Step q (w.holding q) ((w.exchangeLink g i j).holding q) := by
  have hs : (w.exchangeLink g i j).stakesIn q = w.stakesIn q := by
    rw [stakesIn, stakes_exchangeLink, stakesIn]
  exact step_edit (edits_exchangeLink g i j) (keeps_run (a := .exchangeLink g i j) trivial).book hs

theorem step_exchangeBack (g i : Nat) (p : SoftPlace) (q : RecordId) :
    Holding.Step q (w.holding q) ((w.exchangeBack g i p).holding q) := by
  have hs : (w.exchangeBack g i p).stakesIn q = w.stakesIn q := by
    rw [stakesIn, stakes_exchangeBack, stakesIn]
  exact step_edit (edits_exchangeBack g i p) (keeps_run (a := .exchangeBack g i p) trivial).book hs

/-! ### Resetting -/

theorem step_resetOwner (h : w.Sound) (i : Nat) (q : RecordId) :
    Holding.Step q (w.holding q) ((w.resetOwner i).2.holding q) := by
  unfold resetOwner
  split
  · exact .rest _
  · rename_i r hr
    split_ifs with hb
    · exact .rest _
    · have hs := stakes_setOwner_none (w := w) i
      rw [hr, ofOwner_some, add_comm] at hs
      refine step_demolish (u := w.setOwner i none) h rfl (fun q hq => ?_) rfl hs.symm
        (by simpa using hb) q
      rw [holding_of_ne (w := w) (v := w.setOwner i none) rfl rfl hs.symm
        (by simp [Stake.record]) hq]
      exact .rest _

/-- An object that is not borrowed is not the one that a guard is on. -/
theorem Sound.ne_of_not_isBorrowed (h : w.Sound) {g : Nat} {guard : Guard}
    (hg : w.writable? g = some guard) (hb : w.isBorrowed r = false) : guard.record ≠ r := by
  rintro rfl
  have hmem := mem_guards (guard?_of_writable? hg)
  simp [(h.isBorrowed_iff guard.record).mpr ⟨_, hmem, rfl⟩] at hb

/-- An owner is taken out of an element. -/
theorem stakes_unlink {guard : Guard} {i : Nat} {item : Item} (hi : w.element? guard i = some item)
    (hl : item.link = some r) :
    w.stakes = {.owns r} + (w.setElement guard.record i (item.withLink none)).stakes := by
  obtain ⟨rec, items, hrec, hobj, hi⟩ := element?_eq_some hi
  have hset := stakes_setElement hrec hobj hi (item.withLink none)
  have hhas : item.hasLink = true := by
    cases item <;> simp_all [Item.link, Item.hasLink]
  have hwith := ofItem_withLink hhas none
  rw [hl, ofOwner_some, ofOwner_none] at hwith
  rw [← add_zero w.stakes, ← exchange_trans hset hwith, add_comm]

theorem step_resetLink (h : w.Sound) (g i : Nat) (q : RecordId) :
    Holding.Step q (w.holding q) ((w.resetLink g i).2.holding q) := by
  unfold resetLink
  split
  · exact .rest _
  · rename_i guard hguard
    split
    · exact .rest _
    · rename_i item hitem
      split
      · exact .rest _
      · rename_i r hlink
        split_ifs with hb
        · exact .rest _
        · have hne := h.ne_of_not_isBorrowed hguard (by simpa using hb)
          have hs := stakes_unlink hitem hlink
          have he : w.Edits (w.setElement guard.record i (item.withLink none)) :=
            edits_modifyRecord _ _ fun _ => List.length_set
          refine step_demolish (u := w.setElement guard.record i (item.withLink none)) h ?_
            (fun q hq => ?_) rfl hs (by simpa using hb) q
          · simp only [setElement, modifyRecord, Array.getElem?_modify, if_neg hne]
          · have hq' := stakesIn_add hs (r := r) (by simp [Stake.record]) q
            rw [if_neg hq, zero_add] at hq'
            exact step_edit he rfl hq'.symm

end World

end Custody

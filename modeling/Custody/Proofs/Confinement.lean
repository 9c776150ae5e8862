import Custody.Proofs.Quiescence

/-! What a task leaves alone. A task changes one record at most, the one that it is about,
and no task makes a record or does away with one. -/

namespace Custody

/-- The record that a task is about. An element's destruction is about the object that it
observes, which its finalizer may look at. -/
def Task.subject : Task → Option RecordId
  | .dropOwner o => o
  | .dropSoft s => s.map Watch.record
  | .dropItem i => i.back.map Watch.record
  | .retire r | .forget r => some r
  | .abandon .. => none

namespace World

variable {u v w : World} {r : RecordId} {s : Option RecordId}

/-- One record differs at most, and there are as many as before. -/
structure Confined (s : Option RecordId) (w v : World) : Prop where
  size : v.records.size = w.records.size
  others : ∀ q, s ≠ some q → v.records[q]? = w.records[q]?

theorem Confined.refl (s : Option RecordId) (w : World) : Confined s w w := ⟨rfl, fun _ _ => rfl⟩

theorem Confined.trans (h : Confined s u v) (k : Confined s v w) : Confined s u w :=
  ⟨k.size.trans h.size, fun q hq => (k.others q hq).trans (h.others q hq)⟩

theorem confined_of_eq (h : v.records = w.records) : Confined s w v :=
  ⟨by rw [h], fun _ _ => by rw [h]⟩

theorem confined_modifyRecord (r : RecordId) (f : Record → Record) :
    Confined (some r) w (w.modifyRecord r f) where
  size := Array.size_modify
  others q hq := by
    simp only [modifyRecord, Array.getElem?_modify, if_neg (fun h => hq (congrArg some h))]

theorem Confined.congr (h : Confined s w v) (hv : u.records = v.records) : Confined s w u :=
  h.trans (confined_of_eq hv)

theorem confined_invalidate (r : RecordId) : Confined (some r) w (w.invalidate r) := by
  unfold invalidate
  split
  · exact .refl _ w
  · rename_i rec _
    exact (confined_modifyRecord r fun rec' =>
      { rec' with slots := rec.slots.dismissAll.2 }).congr rfl

theorem confined_returnBlock (r : RecordId) : Confined (some r) w (w.returnBlock r) := by
  unfold returnBlock
  split
  · exact .refl _ w
  · split
    · exact .refl _ w
    · exact (confined_modifyRecord r fun rec => { rec with block := none }).congr rfl

theorem confined_demolish (r : RecordId) : Confined (some r) w (w.demolish r) := by
  unfold demolish
  split
  · exact .refl _ w
  · rename_i rec _
    split
    · exact .refl _ w
    · rename_i items _
      exact (confined_modifyRecord r fun rec => rec.demolished items).congr rfl

theorem confined_orphan (r : RecordId) : Confined (some r) w (w.orphan r) := by
  unfold orphan
  split_ifs
  · exact .refl _ w
  · exact (confined_modifyRecord r _).trans (confined_invalidate r)

theorem confined_dropOwner (o : Owner) : Confined o w (w.dropOwner o) := by
  cases o with
  | none => exact .refl _ w
  | some r =>
    have hs : Confined (some r) w (w.schedule [.forget r]) := confined_of_eq rfl
    unfold dropOwner
    dsimp only
    split_ifs
    · exact (hs.trans (confined_orphan r)).congr (records_raise _)
    · exact hs.trans (confined_demolish r)

theorem confined_forget (r : RecordId) : Confined (some r) w (w.forget r) := by
  unfold forget
  dsimp only
  split_ifs
  · exact (confined_modifyRecord r _).trans (confined_demolish r)
  · exact confined_modifyRecord r _

theorem confined_copyBriefly (s : Soft) :
    Confined (s.map Watch.record) w (w.copyBriefly s).2 := by
  unfold copyBriefly
  split
  · exact .refl _ w
  · rename_i k
    split
    · exact .refl _ w
    · split
      · exact .refl _ w
      · exact ((confined_modifyRecord k.record _).trans (confined_modifyRecord k.record _)).congr
          (records_noteRegistered _ _)

theorem confined_finalize (value : Int64) (f : Finalizer) (prev : Soft) :
    Confined (prev.map Watch.record) w (w.finalize value f prev) := by
  have hlog : Confined (prev.map Watch.record) w { w with log := .dropped value :: w.log } :=
    confined_of_eq rfl
  have hcopy := hlog.trans (confined_copyBriefly prev)
  unfold finalize
  split_ifs
  · exact hcopy.congr (records_raise _)
  · exact hcopy.congr rfl
  · exact confined_of_eq (records_raise _)
  · exact confined_of_eq rfl

theorem confined_dropItem (i : Item) : Confined (i.back.map Watch.record) w (w.dropItem i) := by
  cases i with
  | node value f next prev => exact (confined_finalize value f prev).congr rfl
  | unit | int | byte | bucket | entry => exact confined_of_eq rfl

/-- A task changes only the record that it is about. -/
theorem confined_perform (t : Task) : Confined t.subject w (w.perform t) := by
  cases t with
  | dropOwner o => exact confined_dropOwner o
  | dropSoft s =>
    cases s with
    | none => exact .refl _ w
    | some k => exact (confined_modifyRecord k.record fun rec => rec.deregister k.ticket).congr rfl
  | dropItem i => exact confined_dropItem i
  | retire r => exact (confined_invalidate r).trans (confined_returnBlock r)
  | forget r => exact confined_forget r
  | abandon h b => exact confined_of_eq rfl

theorem size_tick : w.tick.records.size = w.records.size := by
  unfold tick
  split
  · rfl
  · exact (confined_perform _).size

/-- Destruction makes no record. -/
theorem size_drain : w.drain.records.size = w.records.size :=
  drain_induction (P := fun v => v.records.size = w.records.size) rfl fun _ hv => size_tick.trans hv

end World

end Custody

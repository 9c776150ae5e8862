import Custody.Handle.Scan
import Custody.Proofs.Attainment

/-! Taking guards. A guard on an element, by its index or where a scan aims, is a guard on
the whole object that is narrowed; if there is no such element, the borrow ends at once. -/

namespace Custody

theorem elementAt_eq_error {items : List Item} {i : UInt64} {e : AccessRefusal}
    (h : elementAt items i = .error e) : e = .outOfRange i.toNat items.length := by
  unfold elementAt at h
  split at h
  · cases h
  · exact (Except.error.inj h).symm

namespace Op

variable {α : Type} {w v : World} {s : Source} {a : Access}

theorem run_permitted (f : Act (Except AccessRefusal α)) (w : World) :
    (permitted f).run.run w = match f.run w with
      | (.ok x, v) => (.ok x, v)
      | (.error e, v) => (.error (.refused (.access e)), v) := by
  have h : (permitted f).run.run w = (access (f.run w).1).run.run (f.run w).2 := rfl
  rw [h]
  rcases f.run w with ⟨_ | _, v⟩ <;> rfl

/-- A borrow that is refused is refused to the element too. -/
theorem run_lendElement_of_error {e : AccessRefusal} (h : (w.lend s a).1 = .error e) (i : UInt64) :
    (lendElement s a i).run.run w = (.error (.refused (.access e)), (w.lend s a).2) := by
  have hlend : (Act.lend s a).run w = (.error e, (w.lend s a).2) := Prod.ext h rfl
  rw [lendElement, run_bind, run_permitted, hlend]

/-- A guard on an element is one on the object, narrowed; without such an element the
borrow has ended. -/
theorem run_lendElement_of_ok {g : Nat} (h : (w.lend s a).1 = .ok g) (i : UInt64) :
    (lendElement s a i).run.run w = match elementAt ((w.lend s a).2.guarded g) i with
      | .ok _ => (.ok g, (w.lend s a).2.narrow g i.toNat)
      | .error e => (.error (.refused (.access e)), (w.lend s a).2.endBorrow g) := by
  have hlend : (Act.lend s a).run w = (.ok g, (w.lend s a).2) := Prod.ext h rfl
  have hlook : (look (·.guarded g)).run.run (w.lend s a).2 =
      (.ok ((w.lend s a).2.guarded g), (w.lend s a).2) := rfl
  rw [lendElement, run_bind, run_permitted, hlend]
  dsimp only
  rw [run_bind, hlook]
  dsimp only
  cases elementAt ((w.lend s a).2.guarded g) i <;> rfl

theorem run_lendScanned_of_error {i : Nat} {e : AccessRefusal}
    (h : (w.lend (.soft (.scan i)) a).1 = .error e) (aim : Aim) :
    (lendScanned a i aim).run.run w =
      (.error (.refused (.access e)), (w.lend (.soft (.scan i)) a).2) := by
  have hlend : (Act.lend (.soft (.scan i)) a).run w =
      (.error e, (w.lend (.soft (.scan i)) a).2) := Prod.ext h rfl
  rw [lendScanned, run_bind, run_permitted, hlend]

/-- A guard on the element that a scan aims at. -/
theorem run_lendScanned_of_ok {i g : Nat} (h : (w.lend (.soft (.scan i)) a).1 = .ok g) (aim : Aim)
    (hv : (w.lend (.soft (.scan i)) a).2 = v) :
    (lendScanned a i aim).run.run w =
      match (v.scan i).position.aim (v.guarded g).length aim with
      | .ok index => (.ok g, v.narrow g index.toNat)
      | .error e => (.error (.refused (.access e)), v.endBorrow g) := by
  have hlend : (Act.lend (.soft (.scan i)) a).run w = (.ok g, v) := Prod.ext h hv
  have hlook : (look (·.guarded g)).run.run v = (.ok (v.guarded g), v) := rfl
  have hscan : (look (·.scan i)).run.run v = (.ok (v.scan i), v) := rfl
  rw [lendScanned, run_bind, run_permitted, hlend]
  dsimp only
  rw [run_bind, hlook]
  dsimp only
  rw [run_bind, hscan]
  dsimp only
  cases (v.scan i).position.aim (v.guarded g).length aim <;> rfl

end Op

end Custody

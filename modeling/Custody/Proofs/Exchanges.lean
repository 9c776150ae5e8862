import Custody.Proofs.Resets
import Custody.Proofs.Scans.Copies

/-! What is exchanged under a guard. Whoever owns an object that nobody borrows may borrow it
exclusively, exchange the handles in it with such in variables, and give it back. So the handles
of a new node come into it, and an owner in an element changes places with one in a variable. -/

namespace Custody

/-! ### One place of an array -/

section Arrays

variable {α : Type} {a : Array α} {i : Nat} {x : α}

theorem modify_modify (f g : α → α) : (a.modify i f).modify i g = a.modify i fun x => g (f x) := by
  refine Array.ext_getElem? fun j => ?_
  simp only [Array.getElem?_modify]
  split_ifs
  · cases a[j]? <;> rfl
  · rfl

/-- Only what is done to the element that is there matters. -/
theorem modify_congr {f g : α → α} (hx : a[i]? = some x) (h : f x = g x) :
    a.modify i f = a.modify i g := by
  refine Array.ext_getElem? fun j => ?_
  simp only [Array.getElem?_modify]
  split_ifs with hj
  · subst hj
    rw [hx, Option.map_some, Option.map_some, h]
  · rfl

end Arrays

namespace World

variable {u v w : World} {i j : Nat} {r : RecordId} {rec : Record} {x : Item} {s : Soft}

/-! ### Exclusive guards -/

/-- The world in which the owner in variable `i` lends `r` exclusively. -/
def claimed (w : World) (i : Nat) (r : RecordId) : World :=
  { w.modifyRecord r fun rec => { rec with borrow := .writer } with
    guards := (w.nextGuard, ⟨r, .exclusive, .owner i, .whole⟩) :: w.guards
    nextGuard := w.nextGuard + 1 }

theorem lend_of_free (hi : w.owner i = some r) (hr : w.records[r]? = some rec)
    (ha : rec.isAlive = true) (hb : rec.borrow = .none) :
    w.lend (.owner i) .exclusive = (.ok w.nextGuard, w.claimed i r) := by
  obtain ⟨items, hal⟩ := alive_of_isAlive ha
  simp only [lend, reach, hi, held, hr, hal, hb, Borrow.take, Borrow.none, Borrow.claim]
  rfl

theorem guard?_claimed :
    (w.claimed i r).guard? w.nextGuard = some ⟨r, .exclusive, .owner i, .whole⟩ := by
  simp [guard?, claimed]

/-- A variable that is not there is not borrowed through. -/
theorem Tended.not_isLent_owner (h : w.Tended) (hi : w.owner? i = none) :
    w.isLent (.owner i) = false := by
  by_contra hl
  have hne := h.ne_none (Bool.eq_true_of_not_eq_false hl)
  simp [referent, owner, hi] at hne

/-- An exclusive guard ends that came last. -/
theorem endBorrow_of_claimed {v : World} (hw : w.Sound) (hg : v.guards = (w.claimed i r).guards) :
    v.endBorrow w.nextGuard = { v.modifyRecord r fun rec =>
      { rec with borrow := rec.borrow.release .exclusive } with guards := w.guards } := by
  have hguard : v.guard? w.nextGuard = some ⟨r, .exclusive, .owner i, .whole⟩ := by
    rw [guard?, hg, ← guard?, guard?_claimed]
  have hrest : v.guards.filter (fun g => g.1 ≠ w.nextGuard) = w.guards := by
    rw [hg, claimed, List.filter_cons_of_neg (by simp), List.filter_eq_self]
    intro g hg
    have hlt := hw.numbered g hg
    simpa using (Nat.ne_of_lt hlt)
  simp only [endBorrow, hguard, hrest]

/-! ### Handles in elements -/

theorem element?_claimed (hr : w.records[r]? = some rec) (ho : rec.object = some [x]) :
    (w.claimed i r).element? ⟨r, .exclusive, .owner i, .whole⟩ 0 = some x := by
  have hself : (w.claimed i r).records[r]? = some { rec with borrow := .writer } := by
    simp [claimed, modifyRecord, Array.getElem?_modify, hr]
  simp [element?, Part.spans, hself, ho]

theorem writable?_claimed :
    (w.claimed i r).writable? w.nextGuard = some ⟨r, .exclusive, .owner i, .whole⟩ := by
  simp [writable?, guard?_claimed]

theorem isLent_claimed {s : Source} (hs : w.isLent s = false) (hne : s ≠ .owner i) :
    (w.claimed i r).isLent s = false := by
  rw [isLent] at hs ⊢
  simp [claimed, hs, Ne.symm hne]

theorem exchangeLink_of_element {g n : Nat} {guard : Guard} {o : Owner}
    (hg : w.writable? g = some guard) (hx : w.element? guard n = some x) (hlink : x.hasLink = true)
    (hj : w.owner? j = some o) (hl : w.isLent (.owner j) = false) :
    w.exchangeLink g n j = (w.setElement guard.record n (x.withLink o)).setOwner j x.link := by
  simp [exchangeLink, hg, hj, hx, hlink, hl]

theorem exchangeBack_of_element {g n : Nat} {guard : Guard} {q : SoftPlace}
    (hg : w.writable? g = some guard) (hx : w.element? guard n = some x) (hback : x.hasBack = true)
    (hs : w.soft? q = some s) (hq : q.isLoose = true) (hl : w.isLent (.soft q) = false) :
    w.exchangeBack g n q = (w.setElement guard.record n (x.withBack s)).setSoft q x.back := by
  simp [exchangeBack, hg, hs, hx, hback, hq, hl]

theorem vacate_of_isLoose {q : SoftPlace} (hq : q.isLoose = true) :
    w.vacate q = w.setSoft q none := by
  cases q with
  | soft | node => rfl
  | scan | buckets => cases hq

/-- What an owner in a place holds changes places with what a variable owns. -/
theorem run_exchange {o : OwnerPlace} {a : Owner} (hp : w.HasPlace o) (hj : w.owner? j = some a)
    (hl : w.isLent (.owner j) = false) (ho : ∀ i, o = .owner i → w.isLent (.owner i) = false) :
    (o.exchange j).run w = (w.setOwnerAt a o).setOwner j (w.ownerAt o) := by
  cases o with
  | owner i =>
    have hi : w.owner? i = some (w.owner i) := by
      have hlt : i < w.owners.size := hp
      simp [owner, owner?, hlt]
    change w.swapOwners i j = _
    simp [swapOwners, hi, hj, hl, ho i rfl, setOwnerAt, ownerAt]
  | link g n =>
    obtain ⟨guard, x, hg, hx, hlink⟩ := hp
    change w.exchangeLink g n j = _
    rw [exchangeLink_of_element hg hx hlink hj hl]
    simp [setOwnerAt, ownerAt, hg, hx]

/-- The only element of a record becomes another, under a guard and after it. -/
theorem modify_object_of_free (hr : w.records[r]? = some rec) (ho : rec.object = some [x])
    (hb : rec.borrow = .none) (y : Item) :
    (((w.records.modify r fun rec => { rec with borrow := .writer }).modify r fun rec =>
      { rec with object := rec.object.map fun items => items.set 0 y }).modify r fun rec =>
        { rec with borrow := rec.borrow.release .exclusive }) =
      w.records.modify r fun rec => { rec with object := some [y] } := by
  rw [modify_modify, modify_modify]
  exact modify_congr hr (by simp [ho, hb, Borrow.release, Borrow.none])

/-- The same, where it became something else in between. -/
theorem modify_object_twice_of_free (hr : w.records[r]? = some rec) (ho : rec.object = some [x])
    (hb : rec.borrow = .none) (y z : Item) :
    ((((w.records.modify r fun rec => { rec with borrow := .writer }).modify r fun rec =>
      { rec with object := rec.object.map fun items => items.set 0 y }).modify r fun rec =>
        { rec with object := rec.object.map fun items => items.set 0 z }).modify r fun rec =>
          { rec with borrow := rec.borrow.release .exclusive }) =
      w.records.modify r fun rec => { rec with object := some [z] } := by
  rw [modify_modify, modify_modify, modify_modify]
  exact modify_congr hr (by simp [ho, hb, Borrow.release, Borrow.none])

/-- Under an exclusive guard a node without handles takes those in two variables. -/
theorem exchange_handles {number : Int64} {f : Finalizer} {q : SoftPlace} {o : Owner}
    (hr : w.records[r]? = some rec) (ho : rec.object = some [.node number f none none])
    (hi : w.owner? i = some o) (hs : w.soft? q = some s) (hq : q.isLoose = true) (hij : i ≠ j)
    (hli : w.isLent (.owner i) = false) (hlq : w.isLent (.soft q) = false) :
    ((w.claimed j r).exchangeLink w.nextGuard 0 i).exchangeBack w.nextGuard 0 q =
      ((((w.claimed j r).setElement r 0 (.node number f o none)).setOwner i none).setElement r 0
        (.node number f o s)).setSoft q none := by
  obtain ⟨u, hu⟩ :
      ∃ u, u = ((w.claimed j r).setElement r 0 (.node number f o none)).setOwner i none := ⟨_, rfl⟩
  have hlink : (w.claimed j r).exchangeLink w.nextGuard 0 i = u := by
    rw [hu]
    exact exchangeLink_of_element writable?_claimed (element?_claimed hr ho) rfl hi
      (isLent_claimed hli (by simpa using hij))
  have hguard : u.writable? w.nextGuard = some ⟨r, .exclusive, .owner j, .whole⟩ := by
    rw [hu]
    exact writable?_claimed
  have helement :
      u.element? ⟨r, .exclusive, .owner j, .whole⟩ 0 = some (.node number f o none) := by
    rw [hu]
    exact element?_setElement (w := w.claimed j r) (element?_claimed hr ho) _
  have hsoft : u.soft? q = some s := by
    rw [hu]
    cases q <;> exact hs
  have hlent : u.isLent (.soft q) = false := by
    rw [hu]
    exact isLent_claimed hlq (by simp)
  rw [hlink, exchangeBack_of_element hguard helement rfl hsoft hq hlent, hu]
  rfl

end World

namespace Op

open World

variable {α β : Type} {u v w : World} {i j : Nat} {r : RecordId} {rec : Record} {x : Item}

/-- What is done under an exclusive guard of an owner. -/
theorem run_borrowing_of_free {body : Nat → Op α} {y : α} (hw : w.Sound) (hi : w.owner i = some r)
    (hr : w.records[r]? = some rec) (ha : rec.isAlive = true) (hb : rec.borrow = .none)
    (hbody : (body w.nextGuard).run.run (w.claimed i r) = (.ok y, v))
    (hg : v.guards = (w.claimed i r).guards) (hc : v.IsCalm) :
    (borrowing (.owner i) .exclusive body).run.run w = (.ok y, { v.modifyRecord r fun rec =>
      { rec with borrow := rec.borrow.release .exclusive } with guards := w.guards }) := by
  have hend := endBorrow_of_claimed hw hg
  have hlend :
      (permitted (Act.lend (.owner i) .exclusive)).run.run w =
        (.ok w.nextGuard, w.claimed i r) := by
    have hact : (Act.lend (.owner i) .exclusive).run w = (.ok w.nextGuard, w.claimed i r) :=
      lend_of_free hi hr ha hb
    rw [permitted, run_bind, run_lift, hact]
    rfl
  have hcalm : ((Act.act (.endBorrow w.nextGuard)).run v).2.IsCalm := by
    show (v.endBorrow w.nextGuard).IsCalm
    rw [hend]
    exact ⟨hc.pending, hc.unwinding⟩
  rw [borrowing, run_bind_of_ok _ hlend, run_thenClean_of_ok hbody hcalm]
  show (_, v.endBorrow w.nextGuard) = _
  rw [hend]

/-- The handles of a node come into the object that was built for it. -/
theorem run_furnish_node {m : Mode} {number : Int64} {f : Finalizer} {q : SoftPlace} {o : Owner}
    {s : Soft} (hw : w.Sound) (hc : w.IsCalm) (hj : w.owner j = some r)
    (hr : w.records[r]? = some rec) (ha : rec.isAlive = true) (hb : rec.borrow = .none)
    (hobject : rec.object = some [.node number f none none]) (hi : w.owner? i = some o)
    (hs : w.soft? q = some s) (hq : q.isLoose = true) (hij : i ≠ j)
    (hli : w.isLent (.owner i) = false) (hlq : w.isLent (.soft q) = false) :
    (furnish j (.node m number f i q)).run.run w = (.ok (), { (w.setOwner i none).vacate q with
      records := w.records.modify r fun rec => { rec with object := some [.node number f o s] }
      nextGuard := w.nextGuard + 1 }) := by
  obtain ⟨v, hv⟩ : ∃ v, v = ((((w.claimed j r).setElement r 0 (.node number f o none)).setOwner i
      none).setElement r 0 (.node number f o s)).setSoft q none := ⟨_, rfl⟩
  have hbody : (do
      act (.exchangeLink w.nextGuard 0 i)
      act (.exchangeBack w.nextGuard 0 q) : Op Unit).run.run (w.claimed j r) = (.ok (), v) := by
    have hexchange := exchange_handles hr hobject hi hs hq hij hli hlq
    rw [run_bind_of_ok _ (run_act _ _), run_act, hv, ← hexchange]
    rfl
  have hrest : v.guards = (w.claimed j r).guards ∧ v.IsCalm := by
    rw [hv]
    cases q <;> exact ⟨rfl, hc.pending, hc.unwinding⟩
  have hrecords := modify_object_twice_of_free hr hobject hb (.node number f o none)
    (.node number f o s)
  rw [furnish, run_borrowing_of_free hw hj hr ha hb hbody hrest.1 hrest.2, vacate_of_isLoose hq, hv]
  cases q with
  | soft n => simp only [setSoft, setElement, setOwner, claimed, modifyRecord, hrecords]
  | node n => simp only [setSoft, setElement, setOwner, claimed, modifyRecord, hrecords]
  | scan | buckets => cases hq

end Op

end Custody

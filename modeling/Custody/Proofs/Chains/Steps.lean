import Custody.Proofs.Draining
import Custody.Proofs.Exchanges
import Custody.Proofs.Ownership
import Custody.Proofs.Walks.Moves
import Custody.Workload.Chain

/-! The steps with which a chain is built and read, each with the world that comes of it: an
object is observed, a handle is let go, and the handles in a node are exchanged under a
guard. -/

namespace Custody

/-! ### One place of an array -/

section Arrays

variable {α : Type} {a : Array α} {i : Nat} {x : α}

theorem modify_push_size (f : α → α) : (a.push x).modify a.size f = a.push (f x) := by
  refine Array.ext_getElem? fun j => ?_
  simp only [Array.getElem?_modify, Array.getElem?_push]
  split_ifs <;> simp_all

end Arrays

namespace World

variable {u v w : World} {i j : Nat} {r : RecordId} {rec : Record} {x : Item} {t : Ticket}
  {s : Soft}

/-! ### Observing -/

/-- The world with one more observer of `r`, registered under ticket `t`. -/
def observed (w : World) (r : RecordId) (h : HeapId) (t : Ticket) : World :=
  { (w.modifyRecord r fun rec => rec.enrol.acquire).modifyHeap h (·.noteRegistered) with
    softs := w.softs.push (some ⟨r, some t⟩) }

theorem watch_of_nextTicket (hr : w.records[r]? = some rec) (hpos : rec.handles ≠ 0)
    (ht : rec.nextTicket = .ok (some t)) :
    w.watch r = (.ok (some ⟨r, some t⟩),
      (w.modifyRecord r fun rec => rec.enrol.acquire).modifyHeap rec.heap (·.noteRegistered)) := by
  have hself := (replaces_modifyRecord hr fun rec => rec.enrol.acquire).self
  simp [watch, hr, hpos, ht, noteRegistered, hself]

end World

namespace Op

open World

variable {α β : Type} {u v w : World} {i j : Nat} {r : RecordId} {rec : Record} {x : Item}
  {t : Ticket} {s : Soft}

theorem run_watch_of_nextTicket (hr : w.records[r]? = some rec) (hpos : rec.handles ≠ 0)
    (ht : rec.nextTicket = .ok (some t)) :
    (inManner .insist (watch (some r))).run.run w =
      (.ok w.softs.size, w.observed r rec.heap t) := by
  refine run_insist_of_ok ?_
  have hwatch := watch_of_nextTicket (w := w.newSoft.2) hr hpos ht
  have hplace : ((SoftPlace.soft w.softs.size).isLoose &&
      decide (w.newSoft.2.soft? (.soft w.softs.size) = some none)) = true := by
    simp [newSoft, soft?, SoftPlace.isLoose]
  have hattach :
      (Act.attach r (.soft w.softs.size)).run w.newSoft.2 = (.ok (), w.observed r rec.heap t) := by
    simp only [Act.attach, Act.does, attach, if_pos hplace, hwatch, Prod.mk.injEq, true_and]
    simp only [observed, setSoft, newSoft, modifyRecord, modifyHeap, setIfInBounds_push_size]
  have hgranted : (granted (Act.attach r (.soft w.softs.size))).run.run w.newSoft.2 =
      (.ok (), w.observed r rec.heap t) := by
    rw [granted, run_bind, run_lift, hattach]
    rfl
  have hnew : (ExceptT.lift Act.newSoft : Op Nat).run.run w = (.ok w.softs.size, w.newSoft.2) := rfl
  rw [watch, run_bind_of_ok _ hnew]
  dsimp only
  rw [run_bind_of_ok _ hgranted]
  rfl

/-- A handle that watches nothing or an alive object goes away. -/
theorem run_dropSoft {p : SoftPlace} (h : w.Reachable) (hc : w.IsCalm)
    (hl : w.isLent (.soft p) = false) (hs : ∀ k, w.soft p = some k → w.isAlive k.record = true) :
    (dropSoft p).run.run w = (.ok (), (w.vacate p).letGo (w.soft p)) := by
  have hdrop := h.drain_discardSoft_eq hc hl hs
  have hcalm := (h.drain_discardSoft hc hl hs).2.1
  have hrun : (dropSoft p).run.run w = quiesce.run.run (w.discardSoft p) := rfl
  rw [hrun, run_quiesce, hcalm.unwinding, hdrop]

/-- The handle in a node is exchanged with one in a variable. -/
theorem run_exchangeBack (hw : w.Sound) (hc : w.IsCalm) (hi : w.owner i = some r)
    (hr : w.records[r]? = some rec) (ha : rec.isAlive = true) (hb : rec.borrow = .none)
    (ho : rec.object = some [x]) (hx : x.hasBack = true) (hs : w.softs[j]? = some s)
    (hl : w.isLent (.soft (.soft j)) = false) :
    (borrowing (.owner i) .exclusive fun g => act (.exchangeBack g 0 (.soft j))).run.run w =
      (.ok (), { w with
        records := w.records.modify r fun rec => { rec with object := some [x.withBack s] }
        softs := w.softs.setIfInBounds j x.back
        nextGuard := w.nextGuard + 1 }) := by
  have hsoft : (w.claimed i r).soft? (.soft j) = some s := hs
  have hlent := isLent_claimed (i := i) (r := r) hl (by simp)
  have hexchange : (w.claimed i r).exchangeBack w.nextGuard 0 (.soft j) =
      ((w.claimed i r).setElement r 0 (x.withBack s)).setSoft (.soft j) x.back :=
    exchangeBack_of_element writable?_claimed (element?_claimed hr ho) hx hsoft rfl hlent
  have hbody : (act (.exchangeBack w.nextGuard 0 (.soft j))).run.run (w.claimed i r) =
      (.ok (), ((w.claimed i r).setElement r 0 (x.withBack s)).setSoft (.soft j) x.back) := by
    rw [run_act, Action.run, hexchange]
  have hobject := modify_object_of_free hr ho hb (x.withBack s)
  have hguards : (((w.claimed i r).setElement r 0 (x.withBack s)).setSoft (.soft j) x.back).guards =
      (w.claimed i r).guards := rfl
  rw [run_borrowing_of_free hw hi hr ha hb hbody hguards ⟨hc.pending, hc.unwinding⟩]
  simp only [setElement, setSoft, claimed, modifyRecord, hobject]

theorem run_dropOwner_of_none (hc : w.IsCalm) (hi : w.owner i = none)
    (hl : w.isLent (.owner i) = false) : (dropOwner i).run.run w = (.ok (), w) := by
  have hempty : w.discardOwner i = w.schedule [.dropOwner none] := by
    simp only [discardOwner, hl, Bool.false_eq_true, if_false, hi, setOwner_of_none hi]
  have hdrain : (w.discardOwner i).drain = w := by
    rw [hempty, drain_schedule_cons]
    exact drain_of_idle (w := w) hc.pending
  have hrun : (dropOwner i).run.run w = quiesce.run.run (w.discardOwner i) := rfl
  rw [hrun, run_quiesce, hdrain, hc.unwinding]

/-- Under a guard on a node that owns nothing, a new variable takes what variable `j` owns and gives
it to the node. -/
theorem run_takeOver {o : Owner} (hr : w.records[r]? = some rec) (ho : rec.object = some [x])
    (hx : x.hasLink = true) (hnone : x.link = none) (hj : w.owner? j = some o) (hij : j ≠ i)
    (hl : w.isLent (.owner j) = false) (hi : i < w.owners.size)
    (hfresh : w.isLent (.owner w.owners.size) = false) :
    (do
      let t ← ExceptT.lift Act.newOwner
      act (.swapOwners j t)
      act (.exchangeLink w.nextGuard 0 t)
      return t : Op Nat).run.run (w.claimed i r) =
      (.ok w.owners.size, { (w.claimed i r).setElement r 0 (x.withLink o) with
        owners := (w.owners.setIfInBounds j none).push none }) := by
  have hjlt : j < w.owners.size := (Array.getElem?_eq_some_iff.mp hj).1
  have hlent : (w.claimed i r).isLent (.owner j) = false := isLent_claimed hl (by simpa using hij)
  have hlent' : (w.claimed i r).isLent (.owner w.owners.size) = false :=
    isLent_claimed hfresh (by simpa using Nat.ne_of_gt hi)
  let u : World := { w.claimed i r with owners := w.owners.push none }
  let v : World := { w.claimed i r with owners := (w.owners.setIfInBounds j none).push o }
  have hu : u.owner? j = some o ∧ u.owner? w.owners.size = some none := by
    refine ⟨?_, by simp [u, owner?]⟩
    exact getElem?_push_of_some hj
  have hswap : u.swapOwners j w.owners.size = v := by
    have hlu : (u.isLent (.owner j) || u.isLent (.owner w.owners.size)) = false := by
      rw [Bool.or_eq_false_iff]
      exact ⟨hlent, hlent'⟩
    have howners : ((w.owners.push none).setIfInBounds j none).setIfInBounds w.owners.size o =
        (w.owners.setIfInBounds j none).push o := by
      refine Array.ext_getElem? fun q => ?_
      simp only [Array.getElem?_setIfInBounds, Array.getElem?_push, Array.size_setIfInBounds,
        Array.size_push]
      grind
    simp only [swapOwners, hu.1, hu.2, hlu, Bool.false_eq_true, if_false, setOwner, u, howners, v]
  have hexchange : v.exchangeLink w.nextGuard 0 w.owners.size =
      { (w.claimed i r).setElement r 0 (x.withLink o) with
        owners := (w.owners.setIfInBounds j none).push none } := by
    have hv : v.owner? w.owners.size = some o := by simp [v, owner?, Array.getElem_push]
    have hguard : v.writable? w.nextGuard = some ⟨r, .exclusive, .owner i, .whole⟩ :=
      writable?_claimed
    have helement : v.element? ⟨r, .exclusive, .owner i, .whole⟩ 0 = some x :=
      element?_claimed hr ho
    have hlv : v.isLent (.owner w.owners.size) = false := hlent'
    have howners : ((w.owners.setIfInBounds j none).push o).setIfInBounds w.owners.size none =
        (w.owners.setIfInBounds j none).push none := by
      have hsize := setIfInBounds_push_size (w.owners.setIfInBounds j none) o none
      rwa [Array.size_setIfInBounds] at hsize
    rw [exchangeLink_of_element hguard helement hx hv hlv, hnone]
    simp only [setOwner, setElement, modifyRecord, v, howners]
  have hnew : (ExceptT.lift Act.newOwner : Op Nat).run.run (w.claimed i r) =
      (.ok w.owners.size, u) := rfl
  rw [run_bind_of_ok _ hnew, run_bind_of_ok _ (run_act _ u), Action.run, hswap,
    run_bind_of_ok _ (run_act _ v), Action.run, hexchange]
  rfl

/-- A node that owns nothing receives what a variable owns. -/
theorem run_link {o : Owner} (h : w.Reachable) (hc : w.IsCalm) (hi : w.owner i = some r)
    (hr : w.records[r]? = some rec) (ha : rec.isAlive = true) (hb : rec.borrow = .none)
    (ho : rec.object = some [x]) (hx : x.hasLink = true) (hnone : x.link = none)
    (hj : w.owner? j = some o) (hij : j ≠ i) (hl : w.isLent (.owner j) = false) :
    (link i j).run.run w = (.ok (), { w with
      records := w.records.modify r fun rec => { rec with object := some [x.withLink o] }
      owners := (w.owners.setIfInBounds j none).push none
      nextGuard := w.nextGuard + 1 }) := by
  have hilt : i < w.owners.size := by
    by_contra hge
    simp [owner, owner?, Array.getElem?_eq_none (Nat.le_of_not_lt hge)] at hi
  have hfresh := h.tended.not_isLent_owner (i := w.owners.size) (by simp [owner?])
  have hbody := run_takeOver hr ho hx hnone hj hij hl hilt hfresh
  have hobject := modify_object_of_free hr ho hb (x.withLink o)
  have hguards : ({ (w.claimed i r).setElement r 0 (x.withLink o) with
      owners := (w.owners.setIfInBounds j none).push none } : World).guards =
        (w.claimed i r).guards := rfl
  rw [link, run_bind_of_ok _
    (run_borrowing_of_free h.sound hi hr ha hb hbody hguards ⟨hc.pending, hc.unwinding⟩)]
  simp only [setElement, claimed, modifyRecord, hobject]
  exact run_dropOwner_of_none
    ⟨hc.pending, hc.unwinding⟩ (by simp [owner, owner?, Array.getElem_push]) hfresh

end Op

end Custody

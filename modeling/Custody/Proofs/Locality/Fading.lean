import Custody.Proofs.Confinement
import Custody.Proofs.Registrations
import Custody.Proofs.Walks.Handles

/-! What the destruction of other objects may do to an allocation: handles to it go away. Its
object, its block and its guards stay as they are, and so do the slots of the handles that are
left. -/

namespace Custody

open Stake

namespace Holding

variable {r : RecordId} {h k : Holding}

/-- The holding of a record from which a handle goes, or nothing does. -/
inductive Fades (r : RecordId) : Holding → Holding → Prop where
  | rest (h : Holding) : Fades r h h
  | deregister {rec : Record} {c l t} :
    Fades r ⟨some rec, .watches ⟨r, t⟩ ::ₘ c, l⟩ ⟨some (rec.deregister t), .leaves r ::ₘ c, l⟩
  | leave {rec : Record} {c l} : Fades r ⟨some rec, .leaves r ::ₘ c, l⟩ ⟨some rec.left, c, l⟩

/-- A step that leaves the record and its guards alone lets a handle go at most. -/
theorem Step.fades (hk : Step r h k) (hs : Sound r h) (hr : k.record = h.record)
    (hl : k.loans = h.loans) : Fades r h k := by
  cases hk with
  | rest => exact .rest _
  | found => cases hr
  | edit =>
    rw [Option.some.inj hr]
    exact .rest _
  | register =>
    have hhandles := congrArg Record.handles (Option.some.inj hr)
    simp at hhandles
  | probe =>
    rw [Option.some.inj hr]
    exact .rest _
  | deregister => exact .deregister
  | leave => exact .leave
  | orphan =>
    have hdead := congrArg Record.isAlive (Option.some.inj hr)
    rw [(Agrees.alive hs).1] at hdead
    simp at hdead
  | demolish =>
    have hdead := congrArg Record.isAlive (Option.some.inj hr)
    rw [(Agrees.alive hs).1] at hdead
    simp at hdead
  | collapse _ _ ho =>
    have hnone := congrArg Record.object (Option.some.inj hr)
    simp [ho, Record.demolished] at hnone
  | @retire rec =>
    have hblock := congrArg Record.block (Option.some.inj hr)
    have hret := Agrees.retiring hs
    simp [Record.isRetiring, ← hblock, Record.retired] at hret
  | lend | redeem => exact absurd (congrArg Multiset.card hl) (by simp)

/-- Only the slots and the number of handles change. -/
theorem Fades.bare (hk : Fades r h k) : k.record.map Record.bare = h.record.map Record.bare := by
  cases hk <;> simp

theorem Fades.loans (hk : Fades r h k) : k.loans = h.loans := by cases hk <;> rfl

theorem Fades.registrations_le (hk : Fades r h k) :
    registrations k.stakes ≤ registrations h.stakes := by
  cases hk with
  | rest => exact le_rfl
  | deregister => simpa using Multiset.le_cons_self _ _
  | leave => simp

/-- The slots of the handles that are left stay. -/
theorem Fades.find? (hk : Fades r h k) (hs : Sound r k) {rec new : Record}
    (hr : h.record = some rec) (hn : k.record = some new) {t : Ticket}
    (ht : some t ∈ registrations k.stakes) : new.slots.find? t = rec.slots.find? t := by
  cases hk with
  | rest => rw [Option.some.inj (hr.symm.trans hn)]
  | leave =>
    obtain rfl := Option.some.inj hr
    obtain rfl := Option.some.inj hn
    rfl
  | @deregister rec c l u =>
    obtain rfl := Option.some.inj hr
    obtain rfl := Option.some.inj hn
    have he := Agrees.enrolled hs
    cases hm : (rec.deregister u).kind.mode.isTracked with
    | false => cases (he.untracked hm).2 _ ht
    | true =>
      rw [he.tracked hm] at ht
      have hfind := he.slots.mem_tickets.mp (by simpa using ht)
      cases u with
      | none => rfl
      | some j =>
        have hremove :
            (rec.deregister (some j)).slots.find? = Function.update rec.slots.find? j none :=
          SlotTable.find?_remove j
        rw [hremove] at hfind ⊢
        have hne : t ≠ j := by
          rintro rfl
          simp at hfind
        rw [Function.update_of_ne hne]

end Holding

namespace World

variable {u v w : World} {q : RecordId}

/-- A record changes, and stakes `x` in it become stakes `y` in it. -/
theorem fades_replace {rec new : Record} {x y rest : Multiset Stake} (hr : w.records[q]? = some rec)
    (hn : v.records[q]? = some new) (hg : v.book = w.book) (hw : w.stakes = x + rest)
    (hv : v.stakes = y + rest) (hx : ∀ s ∈ x, s.record = q) (hy : ∀ s ∈ y, s.record = q)
    (h : ∀ c l, Holding.Fades q ⟨some rec, x + c, l⟩ ⟨some new, y + c, l⟩) :
    Holding.Fades q (w.holding q) (v.holding q) := by
  have hxq : x.filter (fun s => s.record = q) = x := Multiset.filter_eq_self.mpr hx
  have hyq : y.filter (fun s => s.record = q) = y := Multiset.filter_eq_self.mpr hy
  simp only [holding, stakesIn, hr, hn, hw, hv, Multiset.filter_add, hxq, hyq, loans_congr hg]
  exact h _ _

/-- What the slots say of the ticket of an observing handle. -/
def standing (w : World) (k : Watch) : Option Standing :=
  w.records[k.record]?.bind fun rec => k.ticket.bind rec.slots.find?

/-- An allocation in `v` is as it was in `w`, except that handles to it went away. -/
structure Unharmed (w v : World) (q : RecordId) : Prop where
  /-- Its object, block, borrow flag and all else, but for the slots and the number of handles. -/
  face : v.face q = w.face q
  /-- The borrows by guards. -/
  loans : v.loans q = w.loans q
  /-- No handle is new, -/
  observers : v.observersOf q ≤ w.observersOf q
  /-- and each that is left has its slot, which says the same, and is valid as it was. -/
  standing : ∀ t ∈ v.observersOf q, v.standing ⟨q, t⟩ = w.standing ⟨q, t⟩
  valid : ∀ t ∈ v.observersOf q, v.isValid (some ⟨q, t⟩) = w.isValid (some ⟨q, t⟩)

theorem Unharmed.refl (w : World) (q : RecordId) : w.Unharmed w q :=
  ⟨rfl, rfl, le_rfl, fun _ _ => rfl, fun _ _ => rfl⟩

theorem Unharmed.trans (h : u.Unharmed v q) (k : v.Unharmed w q) : u.Unharmed w q where
  face := k.face.trans h.face
  loans := k.loans.trans h.loans
  observers := k.observers.trans h.observers
  standing t ht := (k.standing t ht).trans (h.standing t (Multiset.mem_of_le k.observers ht))
  valid t ht := (k.valid t ht).trans (h.valid t (Multiset.mem_of_le k.observers ht))

theorem Unharmed.isAlive (h : w.Unharmed v q) : v.isAlive q = w.isAlive q := by
  rw [isAlive_eq, isAlive_eq, h.face]

theorem Unharmed.object? (h : w.Unharmed v q) : v.object? q = w.object? q := by
  have hface (x : World) : x.object? q = (x.face q).bind Record.object := by
    unfold World.object? World.face
    cases x.records[q]? <;> rfl
  rw [hface, hface, h.face]

/-- A handle is valid if the object is alive and its slot, if it has one, says so. -/
theorem isValid_iff (k : Watch) : w.isValid (some k) = true ↔
    w.isAlive k.record = true ∧ (k.ticket = none ∨ w.standing k = some .live) := by
  cases hr : w.records[k.record]? with
  | none => simp [isValid, watched, isAlive, hr, Except.isOk, Except.toBool]
  | some rec =>
    have hvouches : rec.vouches k.ticket = true ↔ k.ticket = none ∨ w.standing k = some .live := by
      rw [World.standing, hr]
      cases k.ticket with
      | none => simp [Record.vouches]
      | some t => simp [Record.vouches, SlotTable.isLive]
    rw [← hvouches]
    cases hv : rec.vouches k.ticket <;> cases ha : rec.isAlive <;>
      simp [isValid, watched, isAlive, hr, hv, ha, Except.isOk, Except.toBool]

/-- An allocation from which a handle goes is unharmed. -/
theorem unharmed_of_fades (h : v.Sound) (hf : Holding.Fades q (w.holding q) (v.holding q)) :
    w.Unharmed v q := by
  have hface : v.face q = w.face q := hf.bare
  have hstanding (t : Option Ticket) (ht : t ∈ v.observersOf q) :
      v.standing ⟨q, t⟩ = w.standing ⟨q, t⟩ := by
    cases t with
    | none => simp [World.standing, Option.bind_none]
    | some t =>
      cases hn : v.records[q]? with
      | none =>
        rw [observersOf, (h.vacant hn).1] at ht
        exact absurd ht (Multiset.notMem_zero _)
      | some new =>
        obtain ⟨rec, hr, -⟩ : ∃ rec, w.records[q]? = some rec ∧ rec.bare = new.bare := by
          rw [face, hn] at hface
          exact Option.map_eq_some_iff.mp hface.symm
        have hfind := hf.find? (h.holds q) hr hn ht
        simp only [World.standing, hn, hr, Option.bind_some, hfind]
  refine ⟨hface, hf.loans, hf.registrations_le, hstanding, fun t ht => ?_⟩
  have halive : v.isAlive q = w.isAlive q := by rw [isAlive_eq, isAlive_eq, hface]
  rw [Bool.eq_iff_iff, isValid_iff, isValid_iff, halive, hstanding t ht]

end World

end Custody

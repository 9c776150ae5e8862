import Custody.Proofs.Ledger.Stakes
import Custody.Proofs.Memory.Forms
import Custody.Proofs.SlotTable.Entries

/-! The life of one allocation. A holding is a record together with all stakes in it
and all borrows of it. `Holding.Step` lists what can happen to a holding, and
`Holding.Sound` says how the record's fields agree with the stakes and the borrows;
every step keeps that. -/

namespace Custody

/-! ### Borrows -/

namespace Borrow

/-- The borrow is the one that a collection of guards takes. -/
def Covers : Borrow → Multiset Access → Prop
  | .readers n, l => l = Multiset.replicate n .shared
  | .writer, l => l = {.exclusive}

theorem covers_none : Borrow.none.Covers 0 := rfl

theorem Covers.take {b c : Borrow} {l : Multiset Access} {a : Access} (h : b.Covers l)
    (hc : b.take a = .ok c) : c.Covers (a ::ₘ l) := by
  match a, b, hc with
  | .shared, .readers n, hc =>
    obtain rfl := Except.ok.inj hc
    obtain rfl : l = _ := h
    rfl
  | .exclusive, .readers 0, hc =>
    obtain rfl := Except.ok.inj hc
    obtain rfl : l = _ := h
    rfl

theorem Covers.release {b : Borrow} {l : Multiset Access} {a : Access} (h : b.Covers (a ::ₘ l)) :
    (b.release a).Covers l := by
  cases b with
  | readers n =>
    have hl : a ::ₘ l = Multiset.replicate n .shared := h
    obtain ⟨rfl, m, rfl⟩ : a = .shared ∧ ∃ m, n = m + 1 := by
      have ha : a ∈ Multiset.replicate n Access.shared := hl ▸ Multiset.mem_cons_self a l
      obtain ⟨hn, ha⟩ := Multiset.mem_replicate.mp ha
      exact ⟨ha, n - 1, by omega⟩
    rw [Multiset.replicate_succ, Multiset.cons_inj_right] at hl
    exact hl
  | writer =>
    have hl : a ::ₘ l = {.exclusive} := h
    obtain ⟨rfl, rfl⟩ : a = .exclusive ∧ l = 0 := by
      have hcard := congrArg Multiset.card hl
      obtain rfl : l = 0 := by simpa using hcard
      exact ⟨by simpa using hl, rfl⟩
    rfl

theorem Covers.isHeld_iff {b : Borrow} {l : Multiset Access} (h : b.Covers l) :
    b.isHeld = true ↔ l ≠ 0 := by
  cases b with
  | readers n =>
    obtain rfl : l = _ := h
    simp [isHeld, ← Multiset.card_eq_zero]
  | writer =>
    obtain rfl : l = _ := h
    simp [isHeld]

end Borrow

/-! ### Stakes in one record -/

namespace Stake

def record : Stake → RecordId
  | .owns r | .leaves r | .retires r => r
  | .watches k => k.record

/-- Whether the record counts it as a handle. -/
def isHandle : Stake → Bool
  | .owns _ | .watches _ | .leaves _ => true
  | .retires _ => false

/-- How many handles there are. -/
def handles (c : Multiset Stake) : Nat := c.countP fun s => s.isHandle

@[simp] theorem handles_owns (r : RecordId) (c : Multiset Stake) :
    handles (.owns r ::ₘ c) = handles c + 1 := Multiset.countP_cons_of_pos _ rfl

@[simp] theorem handles_watches (k : Watch) (c : Multiset Stake) :
    handles (.watches k ::ₘ c) = handles c + 1 := Multiset.countP_cons_of_pos _ rfl

@[simp] theorem handles_leaves (r : RecordId) (c : Multiset Stake) :
    handles (.leaves r ::ₘ c) = handles c + 1 := Multiset.countP_cons_of_pos _ rfl

@[simp] theorem handles_retires (r : RecordId) (c : Multiset Stake) :
    handles (.retires r ::ₘ c) = handles c := Multiset.countP_cons_of_neg _ Bool.false_ne_true

/-- The ticket of an observing handle, or that it has none. -/
def registration? : Stake → Option (Option Ticket)
  | .watches k => some k.ticket
  | .owns _ | .leaves _ | .retires _ => none

/-- The tickets of all observing handles. -/
def registrations (c : Multiset Stake) : Multiset (Option Ticket) := c.filterMap registration?

@[simp] theorem registrations_zero : registrations 0 = 0 := rfl

@[simp] theorem registrations_owns (r : RecordId) (c : Multiset Stake) :
    registrations (.owns r ::ₘ c) = registrations c := Multiset.filterMap_cons_none _ _ rfl

@[simp] theorem registrations_leaves (r : RecordId) (c : Multiset Stake) :
    registrations (.leaves r ::ₘ c) = registrations c := Multiset.filterMap_cons_none _ _ rfl

@[simp] theorem registrations_retires (r : RecordId) (c : Multiset Stake) :
    registrations (.retires r ::ₘ c) = registrations c := Multiset.filterMap_cons_none _ _ rfl

@[simp] theorem registrations_watches (k : Watch) (c : Multiset Stake) :
    registrations (.watches k ::ₘ c) = k.ticket ::ₘ registrations c :=
  Multiset.filterMap_cons_some _ _ _ rfl

theorem mem_registrations {c : Multiset Stake} {t : Option Ticket} :
    t ∈ registrations c ↔ ∃ r, .watches ⟨r, t⟩ ∈ c := by
  simp only [registrations, Multiset.mem_filterMap]
  constructor
  · rintro ⟨s, hs, ht⟩
    cases s with
    | watches k =>
      obtain rfl : k.ticket = t := Option.some.inj ht
      exact ⟨k.record, hs⟩
    | owns | leaves | retires => cases ht
  · rintro ⟨r, hr⟩
    exact ⟨_, hr, rfl⟩

end Stake

open Stake

/-! ### What happens to a record -/

namespace Record

/-- The record when the destruction of its object starts. -/
def demolished (rec : Record) (items : List Item) : Record :=
  { rec with
    object := none
    block := rec.block.map fun b => { b with contents := Item.image items } }

/-- The record when its owner has gone and the object stays. -/
def abandoned (rec : Record) : Record :=
  { rec with orphaned := true, slots := rec.slots.dismissAll.2 }

/-- The record when the destruction of its object is over. -/
def retired (rec : Record) : Record := { rec with slots := rec.slots.dismissAll.2, block := none }

/-- Whether the object is gone and the block is still there. -/
def isRetiring (rec : Record) : Bool := rec.object.isNone && rec.block.isSome

/-- One handle fewer. -/
def left (rec : Record) : Record := { rec with handles := rec.handles - 1 }

/-- The object, if it is there, has as many elements as the record says, and that many have
indices. -/
structure Measured (rec : Record) : Prop where
  word : rec.length < UInt64.size
  length : ∀ items, rec.object = some items → items.length = rec.length

/-- The payload of the block has room for as many elements as the record says, and no more. -/
def Filled (rec : Record) : Prop :=
  ∀ b, rec.block = some b → b.payloadSize = rec.kind.element.layout.size * rec.length

/-- As records are built. -/
structure IsFresh (rec : Record) : Prop where
  object : rec.object.isSome
  measured : rec.Measured
  block : rec.block.isSome
  formed : ∀ b, rec.block = some b → b.Formed
  filled : rec.Filled
  borrow : rec.borrow = .none
  slots : ∃ growth cap grant, rec.slots = .empty growth cap grant
  orphaned : rec.orphaned = false
  handles : rec.handles = 1

/-- What stays as it is, and what stays gone, for good. -/
structure Later (rec new : Record) : Prop where
  heap : new.heap = rec.heap
  kind : new.kind = rec.kind
  length : new.length = rec.length
  dead : rec.isAlive = false → new.isAlive = false
  empty : rec.object = none → new.object = none
  released : rec.block = none → new.block = none

theorem Later.refl (rec : Record) : rec.Later rec := ⟨rfl, rfl, rfl, id, id, id⟩

theorem Later.trans {a b c : Record} (h : a.Later b) (k : b.Later c) : a.Later c where
  heap := k.heap.trans h.heap
  kind := k.kind.trans h.kind
  length := k.length.trans h.length
  dead := k.dead ∘ h.dead
  empty := k.empty ∘ h.empty
  released := k.released ∘ h.released

/-! ### Fields that registering leaves alone -/

section Fields

variable (rec : Record) (t : Option Ticket)

@[simp] theorem isAlive_enrol : rec.enrol.isAlive = rec.isAlive := by
  unfold enrol
  split_ifs <;> rfl

@[simp] theorem object_enrol : rec.enrol.object = rec.object := by
  unfold enrol
  split_ifs <;> rfl

@[simp] theorem block_enrol : rec.enrol.block = rec.block := by
  unfold enrol
  split_ifs <;> rfl

@[simp] theorem borrow_enrol : rec.enrol.borrow = rec.borrow := by
  unfold enrol
  split_ifs <;> rfl

@[simp] theorem handles_enrol : rec.enrol.handles = rec.handles := by
  unfold enrol
  split_ifs <;> rfl

@[simp] theorem heap_enrol : rec.enrol.heap = rec.heap := by
  unfold enrol
  split_ifs <;> rfl

@[simp] theorem kind_enrol : rec.enrol.kind = rec.kind := by
  unfold enrol
  split_ifs <;> rfl

@[simp] theorem length_enrol : rec.enrol.length = rec.length := by
  unfold enrol
  split_ifs <;> rfl

@[simp] theorem heap_acquire : rec.acquire.heap = rec.heap := rfl
@[simp] theorem kind_acquire : rec.acquire.kind = rec.kind := rfl
@[simp] theorem length_acquire : rec.acquire.length = rec.length := rfl
@[simp] theorem isAlive_acquire : rec.acquire.isAlive = rec.isAlive := rfl
@[simp] theorem object_acquire : rec.acquire.object = rec.object := rfl
@[simp] theorem block_acquire : rec.acquire.block = rec.block := rfl
@[simp] theorem borrow_acquire : rec.acquire.borrow = rec.borrow := rfl
@[simp] theorem handles_acquire : rec.acquire.handles = rec.handles + 1 := rfl

@[simp] theorem heap_deregister : (rec.deregister t).heap = rec.heap := by cases t <;> rfl
@[simp] theorem kind_deregister : (rec.deregister t).kind = rec.kind := by cases t <;> rfl
@[simp] theorem length_deregister : (rec.deregister t).length = rec.length := by cases t <;> rfl
@[simp] theorem isAlive_deregister : (rec.deregister t).isAlive = rec.isAlive := by cases t <;> rfl
@[simp] theorem object_deregister : (rec.deregister t).object = rec.object := by cases t <;> rfl
@[simp] theorem block_deregister : (rec.deregister t).block = rec.block := by cases t <;> rfl
@[simp] theorem borrow_deregister : (rec.deregister t).borrow = rec.borrow := by cases t <;> rfl
@[simp] theorem handles_deregister : (rec.deregister t).handles = rec.handles := by cases t <;> rfl

@[simp] theorem handles_abandoned : rec.abandoned.handles = rec.handles := rfl
@[simp] theorem handles_retired : rec.retired.handles = rec.handles := rfl
@[simp] theorem isAlive_retired : rec.retired.isAlive = rec.isAlive := rfl
@[simp] theorem isAlive_left : rec.left.isAlive = rec.isAlive := rfl

@[simp] theorem isAlive_abandoned : rec.abandoned.isAlive = false := by
  simp [isAlive, abandoned]

@[simp] theorem isAlive_demolished (items : List Item) :
    (rec.demolished items).isAlive = false := by
  simp [isAlive, demolished]

end Fields

/-! ### Observers -/

/-- The tickets of the observing handles are those that the slots know. -/
structure Enrolled (rec : Record) (ts : Multiset (Option Ticket)) : Prop where
  slots : rec.slots.Sound
  tracked : rec.kind.mode.isTracked = true → ts = rec.slots.tickets.map some
  untracked : rec.kind.mode.isTracked = false → rec.slots.tickets = 0 ∧ ∀ t ∈ ts, t = none
  live : rec.isAlive = true → ∀ k s, rec.slots.find? k = some s → s = .live

variable {rec : Record} {ts : Multiset (Option Ticket)}

theorem enrolled_of_isFresh (h : rec.IsFresh) : rec.Enrolled 0 := by
  obtain ⟨growth, cap, grant, hs⟩ := h.slots
  exact
    { slots := by rw [hs]; exact SlotTable.sound_empty _ _ _
      tracked := fun _ => by rw [hs, SlotTable.tickets_empty, Multiset.map_zero]
      untracked := fun _ => by simp [hs]
      live := fun _ k s hk => by simp [hs, SlotTable.find?_empty] at hk }

theorem Enrolled.congr (h : rec.Enrolled ts) {new : Record} (hs : new.slots = rec.slots)
    (hk : new.kind = rec.kind) (ha : new.isAlive = true → rec.isAlive = true) :
    new.Enrolled ts where
  slots := by rw [hs]; exact h.slots
  tracked := by rw [hs, hk]; exact h.tracked
  untracked := by rw [hs, hk]; exact h.untracked
  live hn := by rw [hs]; exact h.live (ha hn)

/-- An observer that is registered gets a ticket no other one has. -/
theorem Enrolled.enrol (h : rec.Enrolled ts) {t : Option Ticket} (ht : rec.nextTicket = .ok t) :
    rec.enrol.Enrolled (t ::ₘ ts) := by
  unfold Record.nextTicket at ht
  by_cases hm : rec.kind.mode.isTracked = true
  · rw [if_pos hm] at ht
    have he : rec.enrol = { rec with slots := rec.slots.enrol rec.standing } := if_pos hm
    match hn : rec.slots.nextTicket, ht with
    | .ok k, ht =>
      obtain rfl : some k = t := Except.ok.inj ht
      rw [he]
      refine ⟨h.slots.enrol _, fun _ => ?_, fun hf => ?_, fun ha j s hj => ?_⟩
      · simp [h.tracked hm, h.slots.tickets_enrol hn]
      · simp [hm] at hf
      · have ha : rec.isAlive = true := ha
        rw [h.slots.find?_enrol hn] at hj
        by_cases hjk : j = k
        · subst hjk
          simpa [standing, ha] using hj.symm
        · exact h.live ha j s (by simpa [hjk] using hj)
  · rw [if_neg hm] at ht
    obtain rfl : none = t := Except.ok.inj ht
    have he : rec.enrol = rec := if_neg hm
    rw [he]
    exact
      { slots := h.slots
        tracked := fun ht => absurd ht hm
        untracked := fun hf => by simpa using h.untracked hf
        live := h.live }

theorem Enrolled.deregister {t : Option Ticket} (h : rec.Enrolled (t ::ₘ ts)) :
    (rec.deregister t).Enrolled ts := by
  cases t with
  | none =>
    refine ⟨h.slots, fun hm => ?_, fun hm => ?_, h.live⟩
    · have hmem : none ∈ rec.slots.tickets.map some := h.tracked hm ▸ Multiset.mem_cons_self _ _
      simp at hmem
    · obtain ⟨h0, hn⟩ := h.untracked hm
      exact ⟨h0, fun t ht => hn t (Multiset.mem_cons_of_mem ht)⟩
  | some k =>
    refine ⟨h.slots.remove k, fun hm => ?_, fun hm => ?_, fun ha j s hj => ?_⟩
    · have hts := h.tracked hm
      have hk : k ∈ rec.slots.tickets := by
        have : some k ∈ rec.slots.tickets.map some := hts ▸ Multiset.mem_cons_self _ _
        simpa using this
      rw [h.slots.tickets_remove hk, Multiset.map_cons, Multiset.cons_inj_right] at hts
      exact hts
    · simpa using (h.untracked hm).2 (some k) (Multiset.mem_cons_self _ _)
    · have hj : (rec.slots.remove k).2.find? j = some s := hj
      rw [SlotTable.find?_remove] at hj
      by_cases hjk : j = k
      · simp [hjk] at hj
      · exact h.live ha j s (by simpa [hjk] using hj)

/-- When all are told that the owner has gone, they keep their tickets. -/
theorem Enrolled.dismiss (h : rec.Enrolled ts) {new : Record}
    (hs : new.slots = rec.slots.dismissAll.2) (hk : new.kind = rec.kind)
    (ha : new.isAlive = false) : new.Enrolled ts where
  slots := by rw [hs]; exact h.slots.update fun _ _ => .gone
  tracked := by
    rw [hs, hk, SlotTable.dismissAll, h.slots.tickets_update]
    exact h.tracked
  untracked := by
    rw [hs, hk, SlotTable.dismissAll, h.slots.tickets_update]
    exact h.untracked
  live hn := by simp [ha] at hn

end Record

/-- A record, if there is one, the stakes in it, and the borrows of its object. -/
structure Holding where
  record : Option Record
  stakes : Multiset Stake
  loans : Multiset Access

namespace Holding

/-- What one action can do to the holding of record `r`. -/
inductive Step (r : RecordId) : Holding → Holding → Prop where
  | rest (h : Holding) : Step r h h
  | found {rec : Record} : rec.IsFresh → Step r ⟨none, 0, 0⟩ ⟨some rec, {.owns r}, 0⟩
  /-- The elements are changed, not their number nor that of the handles in them. -/
  | edit {rec : Record} {c l} (f : List Item → List Item) :
    (∀ items, (f items).length = items.length) →
    Step r ⟨some rec, c, l⟩ ⟨some { rec with object := rec.object.map f }, c, l⟩
  | register {rec : Record} {c l t} : rec.nextTicket = .ok t →
    Step r ⟨some rec, c, l⟩ ⟨some rec.enrol.acquire, .watches ⟨r, t⟩ ::ₘ c, l⟩
  /-- An observing handle comes and goes. -/
  | probe {rec : Record} {c l t} : rec.nextTicket = .ok t →
    Step r ⟨some rec, c, l⟩ ⟨some (rec.enrol.deregister t), c, l⟩
  | deregister {rec : Record} {c l t} :
    Step r ⟨some rec, .watches ⟨r, t⟩ ::ₘ c, l⟩ ⟨some (rec.deregister t), .leaves r ::ₘ c, l⟩
  /-- The owner goes while the object is borrowed. -/
  | orphan {rec : Record} {c l} : rec.borrow.isHeld = true →
    Step r ⟨some rec, .owns r ::ₘ c, l⟩ ⟨some rec.abandoned, .leaves r ::ₘ c, l⟩
  /-- The owner goes, and destruction starts. -/
  | demolish {rec : Record} {c l items} : rec.borrow.isHeld = false → rec.object = some items →
    Step r ⟨some rec, .owns r ::ₘ c, l⟩
      ⟨some (rec.demolished items), .retires r ::ₘ .leaves r ::ₘ c, l⟩
  /-- A handle goes; if it was the last one, nothing is left to destroy, or not yet. -/
  | leave {rec : Record} {c l} :
    (rec.left.handles = 0 → rec.borrow.isHeld = true ∨ rec.object = none) →
    Step r ⟨some rec, .leaves r ::ₘ c, l⟩ ⟨some rec.left, c, l⟩
  /-- The last handle goes, and the destruction of an orphan starts. -/
  | collapse {rec : Record} {c l items} : rec.left.handles = 0 → rec.borrow.isHeld = false →
    rec.object = some items →
    Step r ⟨some rec, .leaves r ::ₘ c, l⟩ ⟨some (rec.left.demolished items), .retires r ::ₘ c, l⟩
  /-- The destruction is over. -/
  | retire {rec : Record} {c l} :
    Step r ⟨some rec, .retires r ::ₘ c, l⟩ ⟨some rec.retired, c, l⟩
  /-- A borrow starts, through a handle or beside another borrow. -/
  | lend {rec : Record} {c l a b} : rec.isAlive = true ∨ l ≠ 0 → rec.borrow.take a = .ok b →
    Step r ⟨some rec, c, l⟩ ⟨some { rec with borrow := b }, c, a ::ₘ l⟩
  | redeem {rec : Record} {c l a} :
    Step r ⟨some rec, c, a ::ₘ l⟩ ⟨some { rec with borrow := rec.borrow.release a }, c, l⟩

/-- How a record agrees with the stakes `c` in it and the borrows `l` of its object. -/
structure Agrees (r : RecordId) (rec : Record) (c : Multiset Stake)
    (l : Multiset Access) : Prop where
  /-- The object is alive exactly as long as it has its owner, of which there is one. -/
  owned : c.count (.owns r) = rec.isAlive.toNat
  counted : rec.handles = handles c
  /-- The block is there until its object is gone and destruction is over. -/
  retiring : c.count (.retires r) = rec.isRetiring.toNat
  housed : rec.object.isSome → rec.block.isSome
  enrolled : rec.Enrolled (registrations c)
  lent : rec.borrow.Covers l
  kept : l ≠ 0 → rec.object.isSome

/-- Nothing refers to a record that is not there. -/
def Sound (r : RecordId) (h : Holding) : Prop :=
  match h.record with
  | some rec => Agrees r rec h.stakes h.loans
  | none => h.stakes = 0 ∧ h.loans = 0

/-! ### Every step keeps the agreement -/

variable {r : RecordId} {rec : Record} {c : Multiset Stake} {l : Multiset Access}

theorem agrees_of_isFresh (h : rec.IsFresh) : Agrees r rec {.owns r} 0 where
  owned := by simp [Record.isAlive, h.orphaned, h.object]
  counted := by rw [h.handles]; rfl
  retiring := by
    obtain ⟨items, ho⟩ := Option.isSome_iff_exists.mp h.object
    simp [Record.isRetiring, ho]
  housed _ := h.block
  enrolled := Record.enrolled_of_isFresh h
  lent := by rw [h.borrow]; exact Borrow.covers_none
  kept := by simp

theorem Agrees.edit (h : Agrees r rec c l) (f : List Item → List Item) :
    Agrees r { rec with object := rec.object.map f } c l := by
  have ha : Record.isAlive { rec with object := rec.object.map f } = rec.isAlive := by
    simp [Record.isAlive]
  exact
    { owned := by rw [ha]; exact h.owned
      counted := h.counted
      retiring := by simpa [Record.isRetiring] using h.retiring
      housed := by simpa using h.housed
      enrolled := h.enrolled.congr rfl rfl (by rw [ha]; exact id)
      lent := h.lent
      kept := by simpa using h.kept }

theorem Agrees.register (h : Agrees r rec c l) {t : Option Ticket} (ht : rec.nextTicket = .ok t) :
    Agrees r rec.enrol.acquire (.watches ⟨r, t⟩ ::ₘ c) l where
  owned := by simpa using h.owned
  counted := by simp [h.counted]
  retiring := by simpa [Record.isRetiring] using h.retiring
  housed := by simpa using h.housed
  enrolled := by
    rw [registrations_watches]
    exact (h.enrolled.enrol ht).congr rfl rfl id
  lent := by simpa using h.lent
  kept := by simpa using h.kept

theorem Agrees.probe (h : Agrees r rec c l) {t : Option Ticket} (ht : rec.nextTicket = .ok t) :
    Agrees r (rec.enrol.deregister t) c l where
  owned := by simpa using h.owned
  counted := by simpa using h.counted
  retiring := by simpa [Record.isRetiring] using h.retiring
  housed := by simpa using h.housed
  enrolled := (h.enrolled.enrol ht).deregister
  lent := by simpa using h.lent
  kept := by simpa using h.kept

theorem Agrees.deregister {t : Option Ticket} (h : Agrees r rec (.watches ⟨r, t⟩ ::ₘ c) l) :
    Agrees r (rec.deregister t) (.leaves r ::ₘ c) l where
  owned := by simpa using h.owned
  counted := by simpa using h.counted
  retiring := by simpa [Record.isRetiring] using h.retiring
  housed := by simpa using h.housed
  enrolled := by
    have he := h.enrolled
    simp only [registrations_watches] at he
    simpa using he.deregister
  lent := by simpa using h.lent
  kept := by simpa using h.kept

/-- A record with an owner is alive, and no other owner of it is left. -/
theorem Agrees.alive (h : Agrees r rec (.owns r ::ₘ c) l) :
    rec.isAlive = true ∧ c.count (.owns r) = 0 := by
  have ho := h.owned
  rw [Multiset.count_cons_self] at ho
  cases ha : rec.isAlive with
  | false => simp [ha] at ho
  | true =>
    rw [ha, Bool.toNat_true] at ho
    exact ⟨rfl, by omega⟩

theorem Agrees.orphan (h : Agrees r rec (.owns r ::ₘ c) l) :
    Agrees r rec.abandoned (.leaves r ::ₘ c) l where
  owned := by simpa using h.alive.2
  counted := by simpa using h.counted
  retiring := by simpa [Record.isRetiring, Record.abandoned] using h.retiring
  housed := h.housed
  enrolled := by
    have he := h.enrolled
    rw [registrations_owns] at he
    rw [registrations_leaves]
    exact he.dismiss rfl rfl (Record.isAlive_abandoned rec)
  lent := h.lent
  kept := h.kept

/-- Destruction starts when no owner is left and nothing is borrowed. -/
theorem Agrees.empty (h : Agrees r rec c l) (hf : rec.borrow.isHeld = false) {items : List Item}
    (ho : rec.object = some items) {d : Multiset Stake} (hown : d.count (.owns r) = 0)
    (hret : d.count (.retires r) = 1) (hcount : handles d = handles c)
    (hreg : registrations d = registrations c) : Agrees r (rec.demolished items) d l where
  owned := by simpa using hown
  counted := by rw [hcount]; exact h.counted
  retiring := by
    have hb := h.housed (by simp [ho])
    rw [hret]
    simp [Record.isRetiring, Record.demolished, hb]
  housed := by simp [Record.demolished]
  enrolled := by
    rw [hreg]
    exact h.enrolled.congr rfl rfl (by simp)
  lent := h.lent
  kept hl := by simp [h.lent.isHeld_iff.mpr hl] at hf

theorem Agrees.demolish (h : Agrees r rec (.owns r ::ₘ c) l) (hf : rec.borrow.isHeld = false)
    {items : List Item} (ho : rec.object = some items) :
    Agrees r (rec.demolished items) (.retires r ::ₘ .leaves r ::ₘ c) l := by
  have hret : c.count (.retires r) = 0 := by simpa [Record.isRetiring, ho] using h.retiring
  exact h.empty hf ho (by simpa using h.alive.2) (by simp [hret]) (by simp) (by simp)

theorem Agrees.leave (h : Agrees r rec (.leaves r ::ₘ c) l) : Agrees r rec.left c l where
  owned := by simpa using h.owned
  counted := by simp [Record.left, h.counted]
  retiring := by simpa [Record.isRetiring, Record.left] using h.retiring
  housed := h.housed
  enrolled := by
    have he := h.enrolled
    rw [registrations_leaves] at he
    exact he.congr rfl rfl id
  lent := h.lent
  kept := h.kept

theorem Agrees.collapse (h : Agrees r rec (.leaves r ::ₘ c) l) (hl : rec.left.handles = 0)
    (hf : rec.borrow.isHeld = false) {items : List Item} (ho : rec.object = some items) :
    Agrees r (rec.left.demolished items) (.retires r ::ₘ c) l := by
  have hleft := h.leave
  have hret : c.count (.retires r) = 0 := by simpa [Record.isRetiring, ho] using h.retiring
  have hown : c.count (.owns r) = 0 := by
    have hc : handles c = 0 := by rw [← hleft.counted, hl]
    refine Multiset.count_eq_zero_of_notMem fun hmem => ?_
    exact Multiset.countP_eq_zero.mp hc _ hmem rfl
  exact hleft.empty hf ho (by simpa using hown) (by simp [hret]) (by simp) (by simp)

theorem Agrees.retire (h : Agrees r rec (.retires r ::ₘ c) l) : Agrees r rec.retired c l := by
  have hret := h.retiring
  rw [Multiset.count_cons_self] at hret
  have ho : rec.object = none := by
    cases hr : rec.isRetiring with
    | false => simp [hr] at hret
    | true => exact Option.isNone_iff_eq_none.mp (Bool.and_eq_true_iff.mp hr).1
  have hone := Bool.toNat_le rec.isRetiring
  have he := h.enrolled
  rw [registrations_retires] at he
  exact
    { owned := by simpa using h.owned
      counted := by simpa using h.counted
      retiring := by
        have hc : c.count (.retires r) = 0 := by omega
        simp [hc, Record.isRetiring, Record.retired]
      housed := by simp [Record.retired, ho]
      enrolled := he.dismiss rfl rfl (by simp [Record.isAlive, Record.retired, ho])
      lent := h.lent
      kept := h.kept }

theorem Agrees.lend (h : Agrees r rec c l) {a : Access} {b : Borrow}
    (ha : rec.isAlive = true ∨ l ≠ 0) (hb : rec.borrow.take a = .ok b) :
    Agrees r { rec with borrow := b } c (a ::ₘ l) where
  owned := h.owned
  counted := h.counted
  retiring := h.retiring
  housed := h.housed
  enrolled := h.enrolled.congr rfl rfl id
  lent := h.lent.take hb
  kept _ := by
    rcases ha with ha | hl
    · exact (Bool.and_eq_true_iff.mp ha).2
    · exact h.kept hl

theorem Agrees.redeem {a : Access} (h : Agrees r rec c (a ::ₘ l)) :
    Agrees r { rec with borrow := rec.borrow.release a } c l where
  owned := h.owned
  counted := h.counted
  retiring := h.retiring
  housed := h.housed
  enrolled := h.enrolled.congr rfl rfl id
  lent := h.lent.release
  kept _ := h.kept (Multiset.cons_ne_zero)

theorem Sound.step {h k : Holding} (hs : Sound r h) (hk : Step r h k) : Sound r k := by
  cases hk with
  | rest => exact hs
  | found hf => exact agrees_of_isFresh hf
  | edit f _ => exact Agrees.edit hs f
  | register ht => exact Agrees.register hs ht
  | probe ht => exact Agrees.probe hs ht
  | deregister => exact Agrees.deregister hs
  | orphan => exact Agrees.orphan hs
  | demolish hf ho => exact Agrees.demolish hs hf ho
  | leave => exact Agrees.leave hs
  | collapse hl hf ho => exact Agrees.collapse hs hl hf ho
  | retire => exact Agrees.retire hs
  | lend ha hb => exact Agrees.lend hs ha hb
  | redeem => exact Agrees.redeem hs

/-! ### What is over stays over -/

/-- A record that is there stays there, and nothing that is gone comes back. -/
theorem Step.later {h k : Holding} (hk : Step r h k) (hr : h.record = some rec) :
    ∃ new, k.record = some new ∧ rec.Later new := by
  cases hk with
  | rest => exact ⟨rec, hr, .refl rec⟩
  | found => cases hr
  | edit =>
    obtain rfl := Option.some.inj hr
    exact ⟨_, rfl, rfl, rfl, rfl, by simp [Record.isAlive], by simp, id⟩
  | register =>
    obtain rfl := Option.some.inj hr
    exact ⟨_, rfl, by simp, by simp, by simp, by simp, by simp, by simp⟩
  | probe =>
    obtain rfl := Option.some.inj hr
    exact ⟨_, rfl, by simp, by simp, by simp, by simp, by simp, by simp⟩
  | deregister =>
    obtain rfl := Option.some.inj hr
    exact ⟨_, rfl, by simp, by simp, by simp, by simp, by simp, by simp⟩
  | orphan =>
    obtain rfl := Option.some.inj hr
    exact ⟨_, rfl, rfl, rfl, rfl, by simp, id, id⟩
  | demolish =>
    obtain rfl := Option.some.inj hr
    exact ⟨_, rfl, rfl, rfl, rfl, by simp, fun _ => rfl, by simp [Record.demolished]⟩
  | leave =>
    obtain rfl := Option.some.inj hr
    exact ⟨_, rfl, rfl, rfl, rfl, id, id, id⟩
  | collapse =>
    obtain rfl := Option.some.inj hr
    exact ⟨_, rfl, rfl, rfl, rfl, by simp, fun _ => rfl, by simp [Record.demolished, Record.left]⟩
  | retire =>
    obtain rfl := Option.some.inj hr
    exact ⟨_, rfl, rfl, rfl, rfl, id, id, fun _ => rfl⟩
  | lend | redeem =>
    obtain rfl := Option.some.inj hr
    exact ⟨_, rfl, rfl, rfl, rfl, id, id, id⟩

/-- Objects keep their length. -/
theorem Step.measured {h k : Holding} (hk : Step r h k)
    (hm : ∀ old, h.record = some old → old.Measured) {new : Record} (hn : k.record = some new) :
    new.Measured := by
  cases hk with
  | rest => exact hm new hn
  | found hf =>
    obtain rfl := Option.some.inj hn
    exact hf.measured
  | @edit rec _ _ f hf =>
    obtain rfl := Option.some.inj hn
    have hold := hm rec rfl
    refine ⟨hold.word, fun items ho => ?_⟩
    obtain ⟨old, hobj, rfl⟩ := Option.map_eq_some_iff.mp ho
    rw [hf, hold.length old hobj]
  | demolish | collapse =>
    obtain rfl := Option.some.inj hn
    refine ⟨(hm _ rfl).word, fun items ho => ?_⟩
    cases ho
  | orphan | leave | retire | lend | redeem =>
    obtain rfl := Option.some.inj hn
    exact ⟨(hm _ rfl).word, (hm _ rfl).length⟩
  | register | probe | deregister =>
    obtain rfl := Option.some.inj hn
    have hold := hm _ rfl
    exact ⟨by simpa using hold.word,
      fun items ho => by simpa using hold.length items (by simpa using ho)⟩

/-- What a record does with its block leaves the block's form alone. -/
theorem Step.formed {h k : Holding} (hk : Step r h k)
    (hf : ∀ old b, h.record = some old → old.block = some b → b.Formed) {new : Record} {b : Block}
    (hn : k.record = some new) (hb : new.block = some b) : b.Formed := by
  cases hk with
  | rest => exact hf new b hn hb
  | found hfresh =>
    obtain rfl := Option.some.inj hn
    exact hfresh.formed b hb
  | demolish | collapse =>
    obtain rfl := Option.some.inj hn
    obtain ⟨old, hold, rfl⟩ := Option.map_eq_some_iff.mp hb
    exact (hf _ old rfl hold).holding _
  | retire =>
    obtain rfl := Option.some.inj hn
    cases hb
  | edit | orphan | leave | lend | redeem =>
    obtain rfl := Option.some.inj hn
    exact hf _ b rfl hb
  | register | probe | deregister =>
    obtain rfl := Option.some.inj hn
    exact hf _ b rfl (by simpa using hb)

/-- The block's payload stays as large as the elements are. -/
theorem Step.filled {h k : Holding} (hk : Step r h k)
    (hf : ∀ old, h.record = some old → old.Filled) {new : Record} (hn : k.record = some new) :
    new.Filled := by
  cases hk with
  | rest => exact hf new hn
  | found hfresh =>
    obtain rfl := Option.some.inj hn
    exact hfresh.filled
  | demolish | collapse =>
    obtain rfl := Option.some.inj hn
    intro b hb
    obtain ⟨old, hold, rfl⟩ := Option.map_eq_some_iff.mp hb
    exact hf _ rfl old hold
  | retire =>
    obtain rfl := Option.some.inj hn
    intro b hb
    cases hb
  | edit | orphan | leave | lend | redeem =>
    obtain rfl := Option.some.inj hn
    intro b hb
    exact hf _ rfl b hb
  | register | probe | deregister =>
    obtain rfl := Option.some.inj hn
    intro b hb
    simpa using hf _ rfl b (by simpa using hb)

/-- A record starts with its object. -/
theorem Step.object_of_found {h k : Holding} (hk : Step r h k) (hr : h.record = none) {new : Record}
    (hn : k.record = some new) : new.object.isSome = true := by
  cases hk with
  | rest => cases hr.symm.trans hn
  | found hf =>
    obtain rfl := Option.some.inj hn
    exact hf.object
  | _ => cases hr

/-- When an object is taken out of its record, its borrows and its block stay as they are. -/
theorem Step.of_emptied {h k : Holding} (hk : Step r h k) (hr : h.record = some rec) {new : Record}
    (hn : k.record = some new) (ho : rec.object.isSome = true) (he : new.object = none) :
    k.loans = h.loans ∧ new.block.isSome = rec.block.isSome := by
  cases hk with
  | rest =>
    obtain rfl := Option.some.inj (hr.symm.trans hn)
    simp [he] at ho
  | found => cases hr
  | demolish =>
    obtain rfl := Option.some.inj hr
    obtain rfl := Option.some.inj hn
    simp [Record.demolished]
  | collapse =>
    obtain rfl := Option.some.inj hr
    obtain rfl := Option.some.inj hn
    simp [Record.demolished, Record.left]
  | edit | register | probe | deregister | orphan | leave | retire | lend | redeem =>
    obtain rfl := Option.some.inj hr
    obtain rfl := Option.some.inj hn
    simp_all [Record.abandoned, Record.left, Record.retired]

/-- An object that is there was held by a handle, and still is, or it is borrowed. -/
theorem Step.held {h k : Holding} (hk : Step r h k) (hs : Sound r h)
    (hpos : ∀ old, h.record = some old → old.object.isSome = true → 0 < old.handles) {new : Record}
    (hn : k.record = some new) (ho : new.object.isSome = true) : 0 < new.handles ∨ k.loans ≠ 0 := by
  cases hk with
  | rest => exact .inl (hpos new hn ho)
  | found hf =>
    obtain rfl := Option.some.inj hn
    exact .inl (by simp [hf.handles])
  | @leave rec _ _ hlast =>
    obtain rfl := Option.some.inj hn
    by_cases hzero : rec.left.handles = 0
    · obtain hheld | hnone := hlast hzero
      · exact .inr ((Agrees.lent hs).isHeld_iff.mp hheld)
      · simp [Record.left, hnone] at ho
    · exact .inl (Nat.pos_of_ne_zero hzero)
  | demolish | collapse =>
    obtain rfl := Option.some.inj hn
    simp [Record.demolished] at ho
  | edit | register | probe | deregister | orphan | retire | lend | redeem =>
    obtain rfl := Option.some.inj hn
    have := hpos _ rfl (by simpa [Record.abandoned, Record.retired] using ho)
    simp [Record.abandoned, Record.retired, this]

end Holding

end Custody

import Custody.Block
import Custody.Object.Kind
import Custody.Ticket

/-! The elements of objects, and the handles stored in them. A handle names an
allocation by its record. An owner holds one allocation or none; an observer
handle watches one allocation, under a ticket if the allocation is tracked. -/

namespace Custody

/-- The number of an allocation's record; identifiers count from one. -/
abbrev RecordId := Nat

/-- An owning handle: the allocation it owns, if any. -/
abbrev Owner := Option RecordId

/-- A registered observation of an allocation. -/
structure Watch where
  record : RecordId
  ticket : Option Ticket
  deriving DecidableEq, Repr

/-- An observing handle: what it watches, if anything. -/
abbrev Soft := Option Watch

/-- What happens when a node is destroyed. -/
structure Finalizer where
  bits : Nat
  deriving DecidableEq, Repr

namespace Finalizer

/-- It does nothing of its own. -/
def plain : Finalizer := ⟨0⟩

/-- Whether it gives up at its end: the low bit. -/
def panics (f : Finalizer) : Bool := f.bits % 2 = 1

/-- Whether it looks at the node observed: the second bit. -/
def probes (f : Finalizer) : Bool := f.bits / 2 % 2 = 1

end Finalizer

inductive Item where
  | unit
  | int (value : Int64)
  | byte (value : UInt8)
  | node (value : Int64) (finalizer : Finalizer) (next : Owner) (prev : Soft)
  | bucket (head : Owner)
  | entry (key : Int64) (next : Owner)
  deriving DecidableEq, Repr

namespace Item

/-- The number that an item shows. -/
def value : Item → Int64
  | .int v => v
  | .byte b => Int64.ofInt b.toNat
  | .node v .. => v
  | .entry k _ => k
  | .unit | .bucket _ => 0

/-- The item with another number in it, reduced to what the item can hold. -/
def set (v : Int) : Item → Item
  | .int _ => .int (Int64.ofInt v)
  | .byte _ => .byte (UInt8.ofNat (v % 256).toNat)
  | .node _ f next prev => .node (Int64.ofInt v) f next prev
  | other => other

/-- The owner stored in the item. -/
def link : Item → Owner
  | .node _ _ next _ => next
  | .bucket head => head
  | .entry _ next => next
  | _ => none

/-- Whether the item has room for an owner. -/
def hasLink : Item → Bool
  | .node .. | .bucket _ | .entry .. => true
  | _ => false

def withLink (o : Owner) : Item → Item
  | .node v f _ prev => .node v f o prev
  | .bucket _ => .bucket o
  | .entry k _ => .entry k o
  | other => other

/-- The observing handle stored in the item. -/
def back : Item → Soft
  | .node _ _ _ prev => prev
  | _ => none

/-- Whether the item has room for an observing handle. -/
def hasBack : Item → Bool
  | .node .. => true
  | _ => false

def withBack (s : Soft) : Item → Item
  | .node v f next _ => .node v f next s
  | other => other

/-- The bytes of a number. -/
def numeral (width n : Nat) : List (Option UInt8) := (littleEndian width n).map some

/-- Bytes that depend on addresses, or that nobody wrote. -/
def obscure (width : Nat) : List (Option UInt8) := List.replicate width none

/-- The bytes that an observing handle leaves behind: an address, and whether there is
a ticket, with the ticket. -/
def handleBytes : Soft → List (Option UInt8)
  | none => numeral 8 0 ++ numeral 4 0 ++ obscure 12
  | some ⟨_, none⟩ => obscure 8 ++ numeral 4 0 ++ obscure 12
  | some ⟨_, some t⟩ =>
    obscure 8 ++ numeral 4 1 ++ numeral 4 t.index.toNat ++ numeral 4 t.generation.toNat ++ obscure 4

/-- The bytes that an item leaves behind when it is destroyed. An owner in it has been
emptied by then. -/
def bytes : Item → List (Option UInt8)
  | .unit => []
  | .int v => numeral 8 v.toUInt64.toNat
  | .byte b => [some b]
  | .node v f _ prev =>
    numeral 8 v.toUInt64.toNat ++ numeral 8 f.bits ++ numeral 8 0 ++ handleBytes prev
  | .bucket _ => numeral 8 0
  | .entry k _ => numeral 8 k.toUInt64.toNat ++ numeral 8 0

/-- The bytes of items side by side. -/
def image (items : List Item) : Contents := .bytes (items.flatMap bytes)

end Item

/-- What an item is built from, before any handle is stored in it. -/
inductive Seed where
  | unit
  | int (value : Int64)
  | byte (value : UInt8)
  | node (value : Int64) (finalizer : Finalizer)
  | bucket
  | entry (key : Int64)
  deriving DecidableEq, Repr

namespace Seed

def item : Seed → Item
  | .unit => .unit
  | .int v => .int v
  | .byte b => .byte b
  | .node v f => .node v f none none
  | .bucket => .bucket none
  | .entry k => .entry k none

/-- The seed of an element from a number and finalizer bits. -/
def ofNumber (e : Element) (v : Int) (bits : Nat) : Seed :=
  match e with
  | .unit => .unit
  | .int => .int (Int64.ofInt v)
  | .byte => .byte (UInt8.ofNat (v % 256).toNat)
  | .node => .node (Int64.ofInt v) ⟨bits⟩
  | .bucket => .bucket
  | .entry => .entry (Int64.ofInt v)

end Seed

end Custody

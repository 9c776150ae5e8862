import Custody.Handle.Range
import Custody.Row
import Custody.Session.Report

/-! How objects are shown and printed: a number as itself, a node with the state of
its handles, a range element by element. -/

namespace Custody

namespace World

/-- How a stored observing handle is shown. -/
def viewBack (w : World) (s : Soft) : Report :=
  .text (if s.isNone then "null" else if w.isValid s then "live" else "dead")

def viewItem (w : World) : Item → Report
  | .unit => .text "unit"
  | .node v _ next prev => .row [.number v.toInt, .flag next.isSome, w.viewBack prev]
  | .bucket head => .flag head.isSome
  | item => .number item.value.toInt

/-- Ranges are shown element by element. -/
def viewObject (w : World) (k : Kind) (items : List Item) : Report :=
  if k.isRange then .row (items.map w.viewItem)
  else .optional w.viewItem items.head?

/-- The kind of a record's object. -/
def kindOf (w : World) (r : RecordId) : Kind :=
  (w.records[r]?.map Record.kind).getD ⟨.one, .unit, .tracked⟩

end World

namespace Item

def describe : Item → String
  | .unit => "()"
  | .node v .. => "Obj(" ++ toString v.toInt ++ ")"
  | item => toString item.value.toInt

end Item

/-- The text of an object. -/
def describeObject (k : Kind) (items : List Item) : String :=
  match k.shape with
  | .one => (items.head?.map Item.describe).getD ""
  | .row _ => describeRow (items.map Item.describe) k.mode
  | .array => Text.bracketed (items.map Item.describe)

namespace World

/-- What a guard shows, and its text. -/
def viewGuard (w : World) (g : Guard) (items : List Item) : Report × String :=
  match g.part with
  | .whole => (w.viewObject (w.kindOf g.record) items, describeObject (w.kindOf g.record) items)
  | .element i =>
    (.optional w.viewItem items[i]?, (items[i]?.map Item.describe).getD "")
  | .number i =>
    let item := items[i]?.getD .unit
    if item = .unit then (w.viewItem item, item.describe)
    else (.number item.value.toInt, toString item.value.toInt)

end World

end Custody

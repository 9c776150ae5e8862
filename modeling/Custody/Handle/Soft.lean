import Custody.Handle.Owner

/-! Observing handles: watching an allocation, copying, moving and letting go. -/

namespace Custody

namespace World

def describeSoft (w : World) (s : Soft) : String :=
  match s with
  | none => "SoftPtr(null)"
  | some k =>
    Text.fields "SoftPtr" <|
      [("id", describeId k.record)] ++
      (match k.ticket with
        | some t => [("slot", t.render)]
        | none => []) ++
      [("valid", Text.flag (w.isValid s))]

/-- The ticket under which a handle is registered. -/
def ticketOf (s : Soft) : Option Ticket := s.bind Watch.ticket

/-- Whether an observing handle watches what an owner holds. -/
def observes (s : Soft) (o : Owner) : Bool :=
  match s, o with
  | some k, some r => k.record = r
  | _, _ => false

end World

namespace Op

/-- A new observing handle for a record, or for nothing; its variable. -/
def watch (r : Option RecordId) : Op Nat := do
  let i ← ExceptT.lift Act.newSoft
  match r with
  | none => return i
  | some r => do
    granted (Act.attach r (.soft i))
    return i

/-- An observing handle goes away; its variable is left empty. -/
def dropSoft (p : SoftPlace) : Op Unit := do
  act (.discardSoft p)
  quiesce

/-- Handle `j` receives what handle `i` watches; then what `j` had goes away. -/
def takeSoft (i j : Nat) : Op Unit := do
  let t ← ExceptT.lift Act.newSoft
  act (.swapSofts (.soft i) (.soft t))
  act (.swapSofts (.soft j) (.soft t))
  dropSoft (.soft t)

/-- Makes the handle in `p` watch record `r`; what it watched before goes away. -/
def rewatch (r : RecordId) (p : SoftPlace) : Op Unit := do
  let t ← inManner .insist (watch (some r))
  act (.swapSofts p (.soft t))
  dropSoft (.soft t)

end Op

end Custody

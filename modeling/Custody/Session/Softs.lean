import Custody.Session.Step
import Custody.Session.Display

/-! Commands on observing handles. -/

namespace Custody

inductive SoftCommand where
  | watch (m : Manner) (soft owner : String)
  /-- Several handles at once, named by a stem and a number. -/
  | watchMany (stem owner : String) (count : Nat)
  | null (soft : String)
  | copy (m : Manner) (soft other : String)
  | drop (soft : String)
  | reset (soft : String)
  | take (giver taker : String)
  | swap (soft other : String)
  /-- Number formats of what is watched, through a shared and an exclusive guard. -/
  | formats (soft : String)
  | describe (soft : String)
  /-- Names the address of what is watched. -/
  | locate (soft address : String)
  | same (soft other : String)
  | observes (soft owner : String)
  | elementAddress (soft address : String) (index : UInt64)
  | elementIndex (soft address : String)
  deriving DecidableEq, Repr

namespace World

/-- Whether a handle is null and valid, its ticket, the identifier, whether there is
an address, and the text. -/
def viewSoft (w : World) (s : Soft) : Report :=
  .row
    [.flag s.isNone, .flag (w.isValid s), .ticket (ticketOf s), .identifier (s.map Watch.record),
     .flag (w.softAddress? s).isSome, .text (w.describeSoft s)]

end World

/-- A text with blanks before it up to a width. -/
def padLeft (width : Nat) (s : String) : String := "".pushn ' ' (width - s.length) ++ s

/-- A text with blanks after it up to a width. -/
def padRight (width : Nat) (s : String) : String := s.pushn ' ' (width - s.length)

namespace SoftCommand

open Step

/-- A new handle is named; its ticket. -/
def callSoft (k : Kind) (soft : String) (i : Nat) : Step Report := do
  call (.soft k) soft i
  look fun w => .ticket (World.ticketOf (w.soft (.soft i)))

/-- Handles `n` on up to `n + count`, as far as there are slots. -/
def watchFrom (k : Kind) (stem : String) (r : Option RecordId) :
    (n count : Nat) → Step (List Report)
  | _, 0 => return []
  | n, count + 1 => do
    let i ← Op.watch r
    let ticket ← callSoft k (stem ++ toString n) i
    return ticket :: (← watchFrom k stem r (n + 1) count)

/-- The number that is watched, if it can be borrowed so. -/
def numberText (i : Nat) (a : Access) : Step String := do
  let (_, items) ← Op.inspect (·.inspect (softSource i) a)
  return (items.head?.map Item.describe).getD ""

def run (k : Kind) : SoftCommand → Step Report
  | .watch m soft owner => do
    let o ← named (.owner k) owner
    let r ← look (·.owner o)
    callSoft k soft (← Op.inManner m (Op.watch r))
  | .watchMany stem owner count => do
    let o ← named (.owner k) owner
    return .row (← watchFrom k stem (← look (·.owner o)) 0 count)
  | .null soft => callSoft k soft =<< Step.lift (Op.watch none)
  | .copy m soft other => do
    let j ← named (.soft k) other
    let s ← look (·.soft (.soft j))
    callSoft k soft (← Op.inManner m (Op.watch (s.map Watch.record)))
  | .drop soft => do
    Op.dropSoft (.soft (← surrender (.soft k) soft softSource))
    return .nothing
  | .reset soft => do
    Op.dropSoft (.soft (← unlent (.soft k) soft softSource))
    return .nothing
  | .take giver taker => do
    let i ← unlent (.soft k) giver softSource
    let j ← unlent (.soft k) taker softSource
    Op.takeSoft i j
    return .nothing
  | .swap soft other => do
    let i ← unlent (.soft k) soft softSource
    let j ← unlent (.soft k) other softSource
    Op.act (.swapSofts (.soft i) (.soft j))
    return .nothing
  | .formats soft => do
    let i ← named (.soft k) soft
    let s ← numberText i .shared
    let x ← numberText i .exclusive
    return .row ([s, padLeft 6 s, s, x, padRight 4 x ++ "|", x].map .text)
  | .describe soft => do
    let i ← named (.soft k) soft
    look fun w => w.viewSoft (w.soft (.soft i))
  | .locate soft address => do
    let i ← named (.soft k) soft
    match ← look fun w => w.softAddress? (w.soft (.soft i)) with
    | none => return .flag false
    | some a => do
      rename .address address a
      return .flag true
  | .same soft other => do
    let s ← look (·.soft (.soft (← named (.soft k) soft)))
    let t ← look (·.soft (.soft (← named (.soft k) other)))
    return .row [.flag (World.sameTarget s t), .flag (World.sameSoft s t)]
  | .observes soft owner => do
    let i ← named (.soft k) soft
    let o ← named (.owner k) owner
    return .flag (← look fun w => World.observes (w.soft (.soft i)) (w.owner o))
  | .elementAddress soft address index => do
    let i ← named (.soft k) soft
    rename .address address (← Op.inspect fun w => w.elementAddress (w.soft (.soft i)) index)
    return .nothing
  | .elementIndex soft address => do
    let i ← named (.soft k) soft
    let a ← named .address address
    return .natural (← Op.inspect fun w => w.elementIndex (w.soft (.soft i)) a)

end SoftCommand

end Custody

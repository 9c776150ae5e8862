import Custody.Handle.Scan
import Custody.Session.Step
import Custody.Session.Display

/-! Commands on positions in arrays and rows, and on runs through their elements. -/

namespace Custody

/-- Where a scan starts. -/
inductive StartAt where
  | index (i : UInt64)
  | beginning
  | finish
  deriving DecidableEq, Repr

inductive ScanCommand where
  | start (scan soft : String) (place : StartAt)
  | null (scan : String)
  /-- A copy, moved. -/
  | copy (scan other : String) (move : Option Position.Move)
  | drop (scan : String)
  | describe (scan : String)
  | read (m : Manner) (scan : String) (aim : Aim)
  | write (m : Manner) (scan : String) (value : Int)
  | lend (guard scan : String) (access : Access) (aim : Aim)
  | step (scan : String) (move : Position.Move)
  | distance (m : Manner) (scan other : String)
  | same (m : Manner) (scan other : String)
  | order (scan other : String)
  /-- The order as far as there is one. -/
  | partialOrder (scan other : String)
  /-- Whether one is less, at most, greater, at least the other. -/
  | relations (scan other : String)
  | check (scan : String)
  | values (scan : String)
  deriving DecidableEq, Repr

inductive ValuesCommand where
  | copy (values scan : String)
  /-- The scan itself is used up; its name is free again. -/
  | consume (values scan : String)
  | next (values : String)
  | drop (values : String)
  deriving DecidableEq, Repr

namespace StartAt

def position (length : Nat) : StartAt → UInt64
  | .index i => i
  | .beginning => 0
  | .finish => UInt64.ofNat length

end StartAt

namespace World

/-- Where a scan is, whether its range is empty, whether it is at the end or of
nothing, its ticket, whether its range is alive and has no elements, and the text. -/
def viewScan (w : World) (s : Scan) : Report :=
  .row
    [.word s.position.index, .word s.position.length, .flag s.position.isEmpty,
     .flag s.position.isEnd, .flag s.isNull, .ticket (ticketOf s.array), .flag (w.isValid s.array),
     .flag (w.softLength s.array = 0), .text s.describe]

end World

namespace ScanCommand

open Step

/-- A new scan is named; its index. -/
def callScan (k : Kind) (scan : String) (i : Nat) : Step Report := do
  call (.scan k) scan i
  look fun w => .word (w.scan i).position.index

def pair (k : Kind) (scan other : String) : Step (Scan × Scan) := do
  let i ← named (.scan k) scan
  let j ← named (.scan k) other
  look fun w => (w.scan i, w.scan j)

/-- An answer that does not depend on the world. -/
def answer {α : Type} (m : Manner) (r : Except AccessRefusal α) : Step α :=
  Step.lift (Op.inManner m (Op.access r))

def run (k : Kind) : ScanCommand → Step Report
  | .start scan soft place => do
    let i ← named (.soft k) soft
    let s ← look (·.soft (.soft i))
    let n ← look (·.softLength s)
    callScan k scan (← Op.openScan s (place.position n))
  | .null scan => do callScan k scan (← Op.openScan none 0)
  | .copy scan other move => do
    let i ← named (.scan k) other
    let j ← Op.copyScan i
    match move with
    | none => pure ()
    | some m => Step.lift (Op.moveScan j m)
    callScan k scan j
  | .drop scan => do
    Op.dropScan (← surrender (.scan k) scan scanSource)
    return .nothing
  | .describe scan => do
    let i ← named (.scan k) scan
    look fun w => w.viewScan (w.scan i)
  | .read m scan aim => do
    let i ← named (.scan k) scan
    let item ← Op.readScan m i aim
    look (·.viewItem item)
  | .write m scan value => do
    let i ← named (.scan k) scan
    Op.writeScan m i value
    return .nothing
  | .lend guard scan access aim => do
    let i ← named (.scan k) scan
    call .guard guard (← Op.lendScanned access i aim)
    return .nothing
  | .step scan m => do
    let i ← unlent (.scan k) scan scanSource
    Op.moveScan i m
    look fun w => .position (w.scan i).position
  | .distance m scan other => do
    let (s, t) ← pair k scan other
    match s.distance t with
    | .ok n => return .number n.toInt
    | .error fault => Step.lift (Op.inManner m (throw fault))
  | .same m scan other => do
    let (s, t) ← pair k scan other
    return .flag (← answer m (s.same t))
  | .order scan other => do
    let (s, t) ← pair k scan other
    return .order (← answer .attempt (s.order t))
  | .partialOrder scan other => do
    let (s, t) ← pair k scan other
    return .optional .order (← answer .insist (s.order? t))
  | .relations scan other => do
    let (s, t) ← pair k scan other
    let o ← answer .insist (s.order? t)
    return .row
      [.flag (o.any (·.isLT)), .flag (o.any (·.isLE)), .flag (o.any (·.isGT)),
       .flag (o.any (·.isGE))]
  | .check scan => do
    let i ← named (.scan k) scan
    Op.inspect (·.checkScan i)
    return .nothing
  | .values scan => do
    let i ← named (.scan k) scan
    let (n, items) ← Op.values i
    look fun w => .row [.natural n, .row (items.map w.viewItem)]

end ScanCommand

namespace ValuesCommand

open Step

def run (k : Kind) : ValuesCommand → Step Report
  | .copy values scan => do
    let i ← named (.scan k) scan
    call (.values k) values (← Op.copyScan i)
    return .nothing
  | .consume values scan => do
    call (.values k) values (← surrender (.scan k) scan scanSource)
    return .nothing
  | .next values => do
    let i ← named (.values k) values
    let item ← Op.nextValue i
    look fun w =>
      let p := (w.scan i).position
      .row [.optional w.viewItem item, .natural p.remaining, .word p.index, .flag p.isEnd]
  | .drop values => do
    Op.dropScan (← surrender (.values k) values scanSource)
    return .nothing

end ValuesCommand

end Custody

import Custody.Session.Memory
import Custody.Session.Nodes
import Custody.Session.Objects
import Custody.Session.Owners
import Custody.Session.Scans
import Custody.Session.Tables

/-! Sessions: commands taken one after the other. After each one everything pending
is done, and a panic that was unwinding is its result. Main definition:
`Session.step`. -/

namespace Custody

inductive Command where
  | memory (c : MemoryCommand)
  | guard (c : GuardCommand)
  | object (k : Kind) (c : ObjectCommand)
  | owner (k : Kind) (c : OwnerCommand)
  | soft (k : Kind) (c : SoftCommand)
  | node (k : Kind) (c : NodeCommand)
  | scan (k : Kind) (c : ScanCommand)
  | values (k : Kind) (c : ValuesCommand)
  | table (k : Kind) (c : TableCommand)
  | walk (k : Kind) (c : WalkCommand)

namespace Command

def run : Command → Step Report
  | .memory c => c.run
  | .guard c => c.run
  | .object k c => c.run k
  | .owner k c => c.run k
  | .soft k c => c.run k
  | .node k c => c.run k
  | .scan k c => c.run k
  | .values k c => c.run k
  | .table k c => c.run k
  | .walk k c => c.run k

end Command

/-- What comes of a command. -/
structure Outcome where
  result : Except Fault Report
  /-- What finalizers reported, in order. -/
  events : List Event
  /-- The counters of named heaps that differ from the ones shown last. -/
  changed : List (String × Stats)

namespace Desk

/-- The counters of the named heaps. -/
def counters (d : Desk) (w : World) : List (String × Stats) :=
  (d.names.inRole .heap).map fun n => (n.1, (w.heap n.2).stats)

/-- The counters that differ from the ones shown last. -/
def changed (d : Desk) (now : List (String × Stats)) : List (String × Stats) :=
  now.filter fun n => d.shown.lookup n.1 ≠ some n.2

end Desk

/-- Everything pending is done; the panic that was unwinding. -/
def Act.recoverAll : Act (Option Panic) := do
  Act.drain
  Act.recover

structure Session where
  desk : Desk
  world : World

namespace Session

def start : Session := ⟨.empty, .start World.defaultGrant⟩

/-- Takes one command. -/
def step (s : Session) (c : Command) : Outcome × Session :=
  let ((result, desk), before) := (c.run.run.run s.desk).run s.world
  let (panic, after) := Act.recoverAll.run before
  let counters := desk.counters after
  ({ result := match panic with
      | some p => .error (.panicked p)
      | none => result
     events := after.log.reverse
     changed := desk.changed counters },
   ⟨{ desk with shown := counters }, Action.clearLog.run after⟩)

/-- A command changes the world by actions only. -/
theorem reaches_step (s : Session) (c : Command) : s.world.Reaches (s.step c).2.world :=
  (((c.run.run.run s.desk).lawful s.world).trans (Act.recoverAll.lawful _)).trans (.once .clearLog)

end Session

end Custody

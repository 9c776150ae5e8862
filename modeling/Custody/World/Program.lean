import Custody.World.Action

/-! Programs over the world. An `Act` reads the world freely but changes it by
actions only; it carries the list of them and the evidence that it does no more, so
whatever holds after every action holds at every moment of every program. An `Op` may
also end in a fault. -/

namespace Custody

structure Act (α : Type) where
  run : World → α × World
  /-- The actions that are done, in order. -/
  trace : World → List Action
  traced : ∀ w : World, (run w).2 = (trace w).foldl Action.run w

namespace Act

variable {α β : Type}

@[ext] theorem ext {a b : Act α} (h : ∀ w, a.run w = b.run w) (ht : ∀ w, a.trace w = b.trace w) :
    a = b := by
  cases a
  cases b
  congr
  · exact funext h
  · exact funext ht

theorem lawful (a : Act α) (w : World) : w.Reaches (a.run w).2 :=
  a.traced w ▸ World.reaches_foldl w (a.trace w)

instance : Monad Act where
  pure a := ⟨fun w => (a, w), fun _ => [], fun _ => rfl⟩
  bind a f :=
    ⟨fun w => let r := a.run w; (f r.1).run r.2,
      fun w => a.trace w ++ (f (a.run w).1).trace (a.run w).2,
      fun w => by rw [List.foldl_append, ← a.traced, ← (f (a.run w).1).traced]⟩

@[simp] theorem run_pure (a : α) (w : World) : (pure a : Act α).run w = (a, w) := rfl

@[simp] theorem run_bind (a : Act α) (f : α → Act β) (w : World) :
    (a >>= f).run w = (f (a.run w).1).run (a.run w).2 := rfl

@[simp] theorem trace_pure (a : α) (w : World) : (pure a : Act α).trace w = [] := rfl

@[simp] theorem trace_bind (a : Act α) (f : α → Act β) (w : World) :
    (a >>= f).trace w = a.trace w ++ (f (a.run w).1).trace (a.run w).2 := rfl

instance : LawfulMonad Act := LawfulMonad.mk' _
  (fun a => ext (fun _ => rfl) fun w => List.append_nil (a.trace w))
  (by intros; rfl)
  (fun a f g => ext (fun _ => rfl) fun _ => List.append_assoc ..)

/-- Looks at the world. -/
def look (f : World → α) : Act α := ⟨fun w => (f w, w), fun _ => [], fun _ => rfl⟩

/-- Does one action, known by the function that does it. -/
def does (f : World → α × World) (action : Action)
    (h : ∀ w : World, action.run w = (f w).2) : Act α :=
  ⟨f, fun _ => [action], fun w => (h w).symm⟩

/-- Does one action that answers nothing. -/
def act (a : Action) : Act Unit := does (fun w => ((), a.run w)) a fun _ => rfl

/-- Does everything that is pending. -/
def drain : Act Unit := ⟨fun w => ((), w.drain), World.ticks, fun w => (World.foldl_ticks w).symm⟩

def openHeap (c : Config) : Act (Except ConfigRefusal HeapId) :=
  does (·.openHeap c) (.openHeap c) fun _ => rfl

def allot (h : HeapId) (l : Layout) (n : Nat) : Act (Except HeapRefusal Nat) :=
  does (·.allot h l n) (.allot h l n) fun _ => rfl

def reclaim (h : HeapId) : Act Nat := does (·.reclaim h) (.reclaim h) fun _ => rfl

def setDetecting (h : HeapId) (on : Bool) : Act (Except HeapRefusal Bool) :=
  does (·.setDetecting h on) (.setDetecting h on) fun _ => rfl

def newOwner : Act Nat := does World.newOwner .newOwner fun _ => rfl

def newSoft : Act Nat := does World.newSoft .newSoft fun _ => rfl

def newScan (r : Option RecordId) (i : UInt64) : Act (Except HeapRefusal Nat) :=
  does (·.newScan r i) (.newScan r i) fun _ => rfl

def newWalk (r : Option RecordId) (i : UInt64) : Act (Except HeapRefusal Nat) :=
  does (·.newWalk r i) (.newWalk r i) fun _ => rfl

def construct (h : HeapId) (k : Kind) (p : Plan) : Act (Except HeapRefusal Nat) :=
  does (·.construct h k p) (.construct h k p) fun _ => rfl

def attach (r : RecordId) (p : SoftPlace) : Act (Except HeapRefusal Unit) :=
  does (·.attach r p) (.attach r p) fun _ => rfl

def lend (s : Source) (a : Access) : Act (Except AccessRefusal Nat) :=
  does (·.lend s a) (.lend s a) fun _ => rfl

def duplicate (g : Nat) : Act (Option Nat) := does (·.duplicate g) (.duplicate g) fun _ => rfl

def recover : Act (Option Panic) := does World.recover .recover fun _ => rfl

end Act

/-- A program that may end in a fault. -/
abbrev Op (α : Type) := ExceptT Fault Act α

/-- Whether a refusal is reported or is fatal. -/
inductive Manner where
  | attempt
  | insist
  deriving DecidableEq, Repr

namespace Op

variable {α : Type}

def look (f : World → α) : Op α := ExceptT.lift (Act.look f)

def act (a : Action) : Op Unit := ExceptT.lift (Act.act a)

/-- Gives up: a panic begins, and nothing more of this program is done. -/
def panic (p : Panic) : Op α := do
  act (.raise p)
  throw (.panicked p)

def access (r : Except AccessRefusal α) : Op α :=
  match r with
  | .ok a => pure a
  | .error e => throw (.refused (.access e))

def heap (r : Except HeapRefusal α) : Op α :=
  match r with
  | .ok a => pure a
  | .error e => throw (.refused (.heap e))

/-- Looks at the world for something that may be refused. -/
def inspect (f : World → Except AccessRefusal α) : Op α := do access (← look f)

/-- A refusal is passed on, or is fatal, as the manner has it. -/
def inManner (m : Manner) (a : Op α) : Op α :=
  match m with
  | .attempt => a
  | .insist => tryCatch a fun
    | .refused cause => panic (.fatal cause)
    | fault => throw fault

/-- Does everything that is pending; a panic in it ends the program. -/
def quiesce : Op Unit := do
  ExceptT.lift Act.drain
  match ← look World.unwinding with
  | some p => throw (.panicked p)
  | none => pure ()

/-- Does `a`, and then the clean-up, however `a` ended. A panic in the clean-up
counts as one of `a`. -/
def thenClean (a : Op α) (cleanUp : Act Unit) : Op α := do
  let result ← ExceptT.lift a.run
  ExceptT.lift cleanUp
  match result with
  | .error fault => throw fault
  | .ok x => do
    quiesce
    return x

/-- Does an action that a heap may refuse. -/
def granted (a : Act (Except HeapRefusal α)) : Op α := do heap (← ExceptT.lift a)

/-- Does an action that a handle may refuse. -/
def permitted (a : Act (Except AccessRefusal α)) : Op α := do access (← ExceptT.lift a)

end Op

end Custody

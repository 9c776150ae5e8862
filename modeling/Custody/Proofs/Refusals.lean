import Custody.World.Program

/-! Registrations that are refused. An action registers one observer at most, and the
record of the allocation may have no slot for it. What is refused on the way is read off
the actions that a program does. -/

namespace Custody

namespace World

variable {w : World}

/-- The record with which an action registers an observer: a handle of the program, or the
copy that a finalizer makes. -/
def asks (w : World) : Action → Option RecordId
  | .attach r p => if p.isLoose && w.soft? p = some none then some r else none
  | .newScan r _ | .newWalk r _ => r
  | .tick =>
    match w.pending with
    | .dropItem (.node _ f _ (some k)) :: _ => if f.probes then some k.record else none
    | _ => none
  | _ => none

/-- Why a record takes no observer more, if it takes none. A record without handles is not
asked. -/
def refusal? (w : World) (r : RecordId) : Option HeapRefusal :=
  w.records[r]?.bind fun rec =>
    if rec.handles = 0 then none
    else match rec.nextTicket with
      | .error e => some e
      | .ok _ => none

/-- Why an action is refused a registration, if it asks for one and is. -/
def denial (w : World) (a : Action) : Option HeapRefusal := (w.asks a).bind w.refusal?

/-- The registrations that are refused while some actions are done in order. -/
def denials : World → List Action → List HeapRefusal
  | _, [] => []
  | w, a :: as => (w.denial a).toList ++ (a.run w).denials as

theorem denials_append (w : World) (as bs : List Action) :
    w.denials (as ++ bs) = w.denials as ++ (as.foldl Action.run w).denials bs := by
  induction as generalizing w with
  | nil => rfl
  | cons a as ih => rw [List.cons_append, denials, ih, denials, List.append_assoc, List.foldl_cons]

end World

namespace Act

variable {α β : Type}

/-- The registrations that are refused while a program runs. -/
def denials (a : Act α) (w : World) : List HeapRefusal := w.denials (a.trace w)

theorem denials_bind (a : Act α) (f : α → Act β) (w : World) :
    (a >>= f).denials w = a.denials w ++ (f (a.run w).1).denials (a.run w).2 := by
  rw [denials, trace_bind, World.denials_append, ← a.traced]
  rfl

end Act

namespace Op

variable {α β : Type} {w : World}

/-- The registrations that are refused while a program runs. -/
def denials (a : Op α) (w : World) : List HeapRefusal := a.run.denials w

theorem denials_lift (a : Act α) (w : World) : denials (ExceptT.lift a) w = a.denials w :=
  (Act.denials_bind a _ w).trans (List.append_nil _)

theorem denials_bind (a : Op α) (f : α → Op β) (w : World) :
    (a >>= f).denials w = a.denials w ++ match a.run.run w with
      | (.ok x, v) => (f x).denials v
      | (.error _, _) => [] := by
  rw [denials, ExceptT.run_bind, Act.denials_bind]
  rcases a.run.run w with ⟨_ | _, v⟩ <;> rfl

theorem run_tryCatch (a : Op α) (f : Fault → Op α) :
    (tryCatch a f).run = a.run >>= fun r => match r with
    | .ok x => pure (.ok x)
    | .error fault => (f fault).run := by
  dsimp only [tryCatch, tryCatchThe, MonadExceptOf.tryCatch, ExceptT.tryCatch, ExceptT.run_mk]
  refine congrArg (a.run >>= ·) (funext fun r => ?_)
  cases r <;> rfl

theorem denials_tryCatch (a : Op α) (f : Fault → Op α) (w : World) :
    (tryCatch a f).denials w = a.denials w ++ match a.run.run w with
      | (.ok _, _) => []
      | (.error fault, v) => (f fault).denials v := by
  rw [denials, run_tryCatch, Act.denials_bind]
  rcases a.run.run w with ⟨_ | _, v⟩ <;> rfl

end Op

end Custody

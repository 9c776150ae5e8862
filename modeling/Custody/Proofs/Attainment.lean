import Custody.Handle.Walk
import Custody.Proofs.Quiescence
import Custody.Proofs.Refusals

/-! Programs that come to a result. A program attains something in a world if it ends well
in a world where that is so; or else a registration was refused on the way, and the
program ends in the panic that says so. -/

namespace Custody

namespace Op

variable {α β : Type} {u v w : World}

theorem run_bind (a : Op α) (f : α → Op β) (w : World) :
    (a >>= f).run.run w = match a.run.run w with
      | (.ok x, v) => (f x).run.run v
      | (.error e, v) => (.error e, v) := by
  rw [ExceptT.run_bind, Act.run_bind]
  rcases a.run.run w with ⟨_ | _, v⟩ <;> rfl

theorem run_lift (a : Act α) (w : World) :
    (ExceptT.lift a : Op α).run.run w = (.ok (a.run w).1, (a.run w).2) := rfl

theorem run_pure (x : α) (w : World) : (pure x : Op α).run.run w = (.ok x, w) := rfl

theorem run_act (a : Action) (w : World) : (act a).run.run w = (.ok (), a.run w) := rfl

theorem run_look (f : World → α) (w : World) : (look f).run.run w = (.ok (f w), w) := rfl

theorem run_bind_of_ok {a : Op α} {y : α} (f : α → Op β) (ha : a.run.run w = (.ok y, v)) :
    (a >>= f).run.run w = (f y).run.run v := by
  rw [run_bind, ha]

/-- Looking for something that may be refused does not change the world. -/
theorem run_inspect_eq (f : World → Except AccessRefusal α) (w : World) :
    (inspect f).run.run w = (match f w with
      | .ok x => .ok x
      | .error e => .error (.refused (.access e)), w) := by
  have h : (inspect f).run.run w = (access (f w)).run.run w := rfl
  rw [h]
  cases f w <;> rfl

theorem reaches_of_run {a : Op α} {x : Except Fault α} (h : a.run.run w = (x, v)) :
    w.Reaches v := by
  have hlawful := a.run.lawful w
  rwa [h] at hlawful

/-- The program ends well, as `post` says of the result and the world then, unless a
registration is refused while it runs. -/
def Attains (a : Op α) (w : World) (post : α → World → Prop) : Prop :=
  (∃ x v, a.run.run w = (.ok x, v) ∧ post x v) ∨
    ∃ e v, a.run.run w = (.error (.panicked (.fatal (.heap e))), v) ∧
      v.unwinding = some (.fatal (.heap e)) ∧ e ∈ a.denials w

variable {a : Op α} {f : α → Op β} {P : α → World → Prop} {Q : β → World → Prop}

theorem Attains.of_run {x : α} (h : a.run.run w = (.ok x, v)) (hp : P x v) : a.Attains w P :=
  .inl ⟨x, v, h, hp⟩

theorem Attains.mono {P' : α → World → Prop} (h : a.Attains w P)
    (hp : ∀ x v, w.Reaches v → P x v → P' x v) : a.Attains w P' := by
  obtain ⟨x, v, hrun, hx⟩ | hrefused := h
  · exact .inl ⟨x, v, hrun, hp x v (reaches_of_run hrun) hx⟩
  · exact .inr hrefused

theorem Attains.bind (ha : a.Attains w P) (hf : ∀ x v, w.Reaches v → P x v → (f x).Attains v Q) :
    (a >>= f).Attains w Q := by
  obtain ⟨x, v, hrun, hx⟩ | ⟨e, v, hrun, hu, he⟩ := ha
  · have hv := reaches_of_run hrun
    have hbind : (a >>= f).run.run w = (f x).run.run v := by rw [run_bind, hrun]
    obtain ⟨y, u, hrun', hy⟩ | ⟨e, u, hrun', hu, he⟩ := hf x v hv hx
    · exact .inl ⟨y, u, hbind.trans hrun', hy⟩
    · refine .inr ⟨e, u, hbind.trans hrun', hu, ?_⟩
      rw [denials_bind, hrun]
      exact List.mem_append_right _ he
  · refine .inr ⟨e, v, by rw [run_bind, hrun], hu, ?_⟩
    rw [denials_bind]
    exact List.mem_append_left _ he

/-- A step whose result is known. -/
theorem Attains.after {x : α} (ha : a.run.run w = (.ok x, v)) (hf : (f x).Attains v Q) :
    (a >>= f).Attains w Q :=
  Attains.bind (.of_run (P := fun y u => y = x ∧ u = v) ha ⟨rfl, rfl⟩) fun y u _ hy => by
    obtain ⟨rfl, rfl⟩ := hy
    exact hf

/-- Where no registration is refused the program ends well. -/
theorem Attains.ok (h : a.Attains w P) (hd : a.denials w = []) :
    ∃ x v, a.run.run w = (.ok x, v) ∧ P x v := by
  obtain h | ⟨e, -, -, -, he⟩ := h
  · exact h
  · rw [hd] at he
    cases he

theorem run_insist (a : Op α) (w : World) :
    (inManner .insist a).run.run w = match a.run.run w with
      | (.ok x, v) => (.ok x, v)
      | (.error (.refused cause), v) => (.error (.panicked (.fatal cause)), v.raise (.fatal cause))
      | (.error fault, v) => (.error fault, v) := by
  rw [inManner, run_tryCatch, Act.run_bind]
  rcases a.run.run w with ⟨⟨cause | p | _⟩ | x, v⟩ <;> rfl

theorem run_insist_of_ok {a : Op α} {y : α} (ha : a.run.run w = (.ok y, v)) :
    (inManner .insist a).run.run w = (.ok y, v) := by
  rw [run_insist, ha]

theorem denials_insist (a : Op α) (w : World) : (inManner .insist a).denials w = a.denials w := by
  rw [inManner, denials_tryCatch]
  rcases a.run.run w with ⟨⟨cause | p | _⟩ | x, v⟩ <;> exact List.append_nil _

theorem Attains.insist (ha : a.Attains w P) : (inManner .insist a).Attains w P := by
  obtain ⟨x, v, h, hx⟩ | ⟨e, v, h, hu, he⟩ := ha
  · exact .inl ⟨x, v, by rw [run_insist, h], hx⟩
  · exact .inr ⟨e, v, by rw [run_insist, h], hu, by rwa [denials_insist]⟩

theorem run_insist_bind (a : Op α) (f : α → Op β) (w : World) :
    (inManner .insist (a >>= f)).run.run w =
      (inManner .insist a >>= fun x => inManner .insist (f x)).run.run w := by
  rw [run_bind, run_insist, run_insist, run_bind]
  rcases a.run.run w with ⟨⟨cause | p | _⟩ | x, v⟩
  · rfl
  · rfl
  · rfl
  · exact (run_insist (f x) v).symm

theorem denials_insist_bind (a : Op α) (f : α → Op β) (w : World) :
    (inManner .insist (a >>= f)).denials w =
      (inManner .insist a >>= fun x => inManner .insist (f x)).denials w := by
  rw [denials_insist, denials_bind, denials_bind, denials_insist, run_insist]
  rcases a.run.run w with ⟨⟨cause | p | _⟩ | x, v⟩
  · rfl
  · rfl
  · rfl
  · exact congrArg _ (denials_insist (f x) v).symm

/-- What is fatal to a part of a program is fatal to the program. -/
theorem Attains.insist_bind
    (h : (inManner .insist a >>= fun x => inManner .insist (f x)).Attains w Q) :
    (inManner .insist (a >>= f)).Attains w Q := by
  rw [Attains, run_insist_bind, denials_insist_bind]
  exact h

/-- A clean-up after a failure does not hide the failure. -/
theorem Attains.rescue {g : Except Fault α → Op β} {c : Op Unit} (ha : a.Attains w P)
    (hg : ∀ fault, g (.error fault) = do
      c
      throw fault)
    (hc : ∀ v p, v.unwinding = some p →
      ∃ u, c.run.run v = (.error (.panicked p), u) ∧ u.unwinding = some p)
    (hk : ∀ x v, w.Reaches v → P x v → (g (.ok x)).Attains v Q) :
    Attains (ExceptT.lift a.run >>= g) w Q := by
  obtain ⟨x, v, hrun, hx⟩ | ⟨e, v, hrun, hu, he⟩ := ha
  · have hv := reaches_of_run hrun
    have hlift : (ExceptT.lift a.run : Op _).run.run w = (.ok (.ok x), v) := by rw [run_lift, hrun]
    exact .after hlift (hk x v hv hx)
  · have hlift : (ExceptT.lift a.run : Op _).run.run w =
        (.ok (.error (.panicked (.fatal (.heap e)))), v) := by rw [run_lift, hrun]
    obtain ⟨u, hcrun, hu⟩ := hc v _ hu
    refine .inr ⟨e, u, ?_, hu, ?_⟩
    · rw [run_bind, hlift]
      dsimp only
      rw [hg, run_bind, hcrun]
    · rw [denials_bind, denials_lift]
      exact List.mem_append_left _ he

/-! ### Clean-up -/

theorem run_quiesce (w : World) :
    quiesce.run.run w = (match w.drain.unwinding with
      | some p => Except.error (Fault.panicked p)
      | none => .ok (), w.drain) := by
  have h : quiesce.run.run w = (match w.drain.unwinding with
      | some p => (throw (Fault.panicked p) : Op Unit)
      | none => pure ()).run.run w.drain := rfl
  rw [h]
  cases w.drain.unwinding <;> rfl

theorem quiesce_unwinding {p : Panic} (h : w.unwinding = some p) :
    ∃ u, quiesce.run.run w = (.error (.panicked p), u) ∧ u.unwinding = some p := by
  have hdrain := World.unwinding_drain h
  exact ⟨w.drain, by rw [run_quiesce, hdrain], hdrain⟩

theorem unwinding_discardSoft (q : SoftPlace) : (w.discardSoft q).unwinding = w.unwinding := by
  unfold World.discardSoft
  split_ifs
  · rfl
  · cases q <;> rfl

theorem dropSoft_unwinding {p : Panic} (q : SoftPlace) (h : w.unwinding = some p) :
    ∃ u, (dropSoft q).run.run w = (.error (.panicked p), u) ∧ u.unwinding = some p :=
  quiesce_unwinding (w := w.discardSoft q) ((unwinding_discardSoft q).trans h)

theorem dropWalk_unwinding {p : Panic} (i : Nat) (h : w.unwinding = some p) :
    ∃ u, (dropWalk i).run.run w = (.error (.panicked p), u) ∧ u.unwinding = some p :=
  quiesce_unwinding (w := (w.discardSoft (.node i)).drain.discardSoft (.buckets i))
    ((unwinding_discardSoft _).trans (World.unwinding_drain ((unwinding_discardSoft _).trans h)))

end Op

end Custody

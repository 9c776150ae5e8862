import Custody.Proofs.Attainment
import Custody.Proofs.Modes.Actions

/-! Programs that do not notice whether allocations are tracked. Two programs match if from
twins on they come to the same and leave twins, as long as the first is refused no
registration. What programs are built with keeps that. -/

namespace Custody

namespace World

variable {v w : World}

/-- What is done in order to a world is done to its twin. -/
theorem Parallel.foldl (h : w.Parallel v) (as : List Action) (hd : w.denials as = []) :
    (as.foldl Action.run w).Parallel ((as.map Action.untracked).foldl Action.run v) := by
  induction as generalizing w v with
  | nil => exact h
  | cons a as ih =>
    rw [denials, List.append_eq_nil_iff, Option.toList_eq_nil_iff] at hd
    exact ih (h.run hd.1) hd.2

theorem ticksFor_eq (n : Nat) (w : World) : ∃ m, ticksFor n w = List.replicate m .tick := by
  induction n generalizing w with
  | zero => exact ⟨0, rfl⟩
  | succ n ih =>
    rw [ticksFor]
    split_ifs
    · exact ⟨0, rfl⟩
    · obtain ⟨m, hm⟩ := ih w.tick
      exact ⟨m + 1, by rw [hm, List.replicate_succ]⟩

theorem ticks_eq (w : World) : ∃ m, w.ticks = List.replicate m .tick := by
  obtain ⟨m, hm⟩ := ticksFor_eq 256 w
  simp only [ticks, hm]
  split_ifs
  · exact ⟨m, List.append_nil _⟩
  · obtain ⟨n, hn⟩ := ticksFor_eq (drainFor 256 w).load (drainFor 256 w)
    exact ⟨m + n, by rw [hn, List.replicate_add]⟩

theorem foldl_replicate_tick (m : Nat) (w : World) :
    (List.replicate m Action.tick).foldl Action.run w = tick^[m] w := by
  induction m generalizing w with
  | zero => rfl
  | succ m ih => exact ih w.tick

/-- Twins take the same number of ticks to come to rest. -/
theorem Parallel.drain (h : w.Parallel v) (hd : w.denials w.ticks = []) : w.drain.Twin v.drain := by
  obtain ⟨m, hm⟩ := ticks_eq w
  have hrun := (h.foldl w.ticks hd).twin
  have htick : Action.untracked .tick = .tick := rfl
  rw [foldl_ticks, hm, List.map_replicate, htick, foldl_replicate_tick] at hrun
  have hrest : (tick^[m] v).pending = [] := by
    simpa [pending_drain] using hrun.pending
  rwa [drain_of_iterate hrest]

end World

/-- Two values are the same in what `e` leaves of them. -/
abbrev SameBy {α γ : Type} (e : α → γ) (x y : α) : Prop := e y = e x

namespace Act

variable {α β γ δ : Type} {R : α → β → Prop} {S : γ → δ → Prop} {v w : World}

/-- From `w` and `v` on, `a` and `b` come to results that `R` relates and leave twins, unless
`a` is refused a registration. -/
def MatchesAt (R : α → β → Prop) (a : Act α) (b : Act β) (w v : World) : Prop :=
  a.denials w = [] → R (a.run w).1 (b.run v).1 ∧ (a.run w).2.Twin (b.run v).2

def Matches (R : α → β → Prop) (a : Act α) (b : Act β) : Prop :=
  ∀ w v, w.Parallel v → MatchesAt R a b w v

theorem MatchesAt.bind {a : Act α} {b : Act β} {f : α → Act γ} {g : β → Act δ} (h : w.Parallel v)
    (ha : MatchesAt R a b w v)
    (hf : ∀ w' v', w.Reaches w' → v.Reaches v' → w'.Parallel v' → R (a.run w).1 (b.run v).1 →
      (a.run w).2 = w' → MatchesAt S (f (a.run w).1) (g (b.run v).1) w' v') :
    MatchesAt S (a >>= f) (b >>= g) w v := by
  intro hd
  rw [denials_bind, List.append_eq_nil_iff] at hd
  obtain ⟨hR, htwin⟩ := ha hd.1
  exact hf _ _ (a.lawful w) (b.lawful v)
    ⟨h.left.reaches (a.lawful w), h.right.reaches (b.lawful v), htwin⟩ hR rfl hd.2

theorem Matches.bind {a : Act α} {b : Act β} {f : α → Act γ} {g : β → Act δ} (ha : Matches R a b)
    (hf : ∀ x y, R x y → Matches S (f x) (g y)) : Matches S (a >>= f) (b >>= g) := fun w v h =>
  (ha w v h).bind h fun w' v' _ _ h' hR _ => hf _ _ hR w' v' h'

theorem matches_pure {x : α} {y : β} (h : R x y) : Matches R (pure x) (pure y) :=
  fun _ _ hwv _ => ⟨h, hwv.twin⟩

theorem matches_look {f : World → α} {g : World → β} (h : ∀ w v, w.Parallel v → R (f w) (g v)) :
    Matches R (look f) (look g) := fun w v hwv _ => ⟨h w v hwv, hwv.twin⟩

theorem matches_does {f : World → α × World} {g : World → β × World} {a b : Action}
    {hf : ∀ w : World, a.run w = (f w).2} {hg : ∀ w : World, b.run w = (g w).2}
    (h : ∀ w v, w.Parallel v → w.denial a = none → R (f w).1 (g v).1 ∧ (f w).2.Twin (g v).2) :
    Matches R (does f a hf) (does g b hg) := by
  intro w v hwv hd
  have hdenials : (does f a hf).denials w = (w.denial a).toList ++ [] := rfl
  rw [hdenials, List.append_nil, Option.toList_eq_nil_iff] at hd
  exact h w v hwv hd

theorem matches_act (a : Action) : Matches Eq (act a) (act a.untracked) :=
  matches_does fun _ _ h hd => ⟨rfl, (h.run hd).twin⟩

theorem matches_drain : Matches Eq drain drain :=
  fun _ _ h hd => ⟨Subsingleton.elim _ _, h.drain hd⟩

theorem matches_forM {f : α → Act Unit} (hf : ∀ x, Matches Eq (f x) (f x)) (xs : List α) :
    Matches Eq (xs.forM f) (xs.forM f) := by
  induction xs with
  | nil => exact matches_pure rfl
  | cons x xs ih => exact (hf x).bind fun _ _ _ => ih

theorem matches_newOwner : Matches Eq newOwner newOwner :=
  matches_does fun _ _ h hd => ⟨(congrArg Array.size h.twin.owners).symm, (h.run hd).twin⟩

theorem matches_newSoft : Matches Eq newSoft newSoft :=
  matches_does fun _ _ h hd => ⟨(size_eq_of_map h.twin.softs).symm, (h.run hd).twin⟩

theorem matches_newScan (o : Option RecordId) (i : UInt64) :
    Matches Eq (newScan o i) (newScan o i) :=
  matches_does fun _ _ h hd => (h.twin.newScan hd).imp_left Eq.symm

theorem matches_newWalk (o : Option RecordId) (i : UInt64) :
    Matches Eq (newWalk o i) (newWalk o i) :=
  matches_does fun _ _ h hd => (h.twin.newWalk hd).imp_left Eq.symm

theorem matches_construct (h : HeapId) (k : Kind) (p : Plan) :
    Matches Eq (construct h k p) (construct h k.untracked p) :=
  matches_does fun _ _ hwv _ => (hwv.twin.construct h k p).imp_left Eq.symm

theorem matches_attach (r : RecordId) (p : SoftPlace) : Matches Eq (attach r p) (attach r p) :=
  matches_does fun _ _ h hd => (h.twin.attach hd).imp_left Eq.symm

theorem matches_lend (s : Source) (a : Access) : Matches Eq (lend s a) (lend s a) :=
  matches_does fun _ _ h _ => (h.lend s a).imp_left Eq.symm

theorem matches_duplicate (g : Nat) : Matches Eq (duplicate g) (duplicate g) :=
  matches_does fun _ _ h _ => (h.twin.duplicate g).imp_left Eq.symm

theorem matches_openHeap (c : Config) : Matches Eq (openHeap c) (openHeap c) := by
  refine matches_does fun w v h hd => ⟨?_, (h.run hd).twin⟩
  simp only [World.openHeap, size_eq_of_map h.twin.heaps]
  cases Heap.open? c <;> rfl

theorem matches_recover : Matches Eq recover recover :=
  matches_does fun _ _ h _ => h.twin.recover.imp_left Eq.symm

end Act

namespace Op

variable {α β γ δ : Type} {R : α → β → Prop} {S : γ → δ → Prop} {v w : World}

/-- Two results: values that `R` relates, or the same fault. -/
inductive Outcomes (R : α → β → Prop) : Except Fault α → Except Fault β → Prop where
  | ok {x : α} {y : β} (h : R x y) : Outcomes R (.ok x) (.ok y)
  | error (fault : Fault) : Outcomes R (.error fault) (.error fault)

def MatchesAt (R : α → β → Prop) (a : Op α) (b : Op β) (w v : World) : Prop :=
  Act.MatchesAt (Outcomes R) a.run b.run w v

/-- From twins on, `a` and `b` come to values that `R` relates, or to the same fault, and leave
twins, unless `a` is refused a registration. -/
def Matches (R : α → β → Prop) (a : Op α) (b : Op β) : Prop :=
  ∀ w v, w.Parallel v → MatchesAt R a b w v

theorem MatchesAt.bind {a : Op α} {b : Op β} {f : α → Op γ} {g : β → Op δ} (h : w.Parallel v)
    (ha : MatchesAt R a b w v)
    (hf : ∀ x y w' v', a.run.run w = (.ok x, w') → w'.Parallel v' → R x y →
      MatchesAt S (f x) (g y) w' v') : MatchesAt S (a >>= f) (b >>= g) w v := by
  rw [MatchesAt, ExceptT.run_bind, ExceptT.run_bind]
  refine Act.MatchesAt.bind h ha fun w' v' _ _ h' hR hw' => ?_
  obtain ⟨x, hx⟩ : ∃ x, (a.run.run w).1 = x := ⟨_, rfl⟩
  obtain ⟨y, hy⟩ : ∃ y, (b.run.run v).1 = y := ⟨_, rfl⟩
  rw [hx, hy] at hR ⊢
  cases hR with
  | ok hxy => exact hf _ _ w' v' (Prod.ext hx hw') h' hxy
  | error fault => exact Act.matches_pure (.error fault) w' v' h'

theorem Matches.bind {a : Op α} {b : Op β} {f : α → Op γ} {g : β → Op δ} (ha : Matches R a b)
    (hf : ∀ x y, R x y → Matches S (f x) (g y)) : Matches S (a >>= f) (b >>= g) := fun w v h =>
  (ha w v h).bind h fun x y w' v' _ h' hR => hf x y hR w' v' h'

theorem matches_pure {x : α} {y : β} (h : R x y) : Matches R (pure x) (pure y) :=
  Act.matches_pure (.ok h)

theorem matches_throw (fault : Fault) : Matches R (throw fault) (throw fault) :=
  Act.matches_pure (.error fault)

theorem matches_lift {a : Act α} {b : Act β} (h : Act.Matches R a b) :
    Matches R (ExceptT.lift a) (ExceptT.lift b) :=
  Act.Matches.bind h fun _ _ hxy => Act.matches_pure (.ok hxy)

theorem matches_look {f : World → α} {g : World → β} (h : ∀ w v, w.Parallel v → R (f w) (g v)) :
    Matches R (look f) (look g) := matches_lift (Act.matches_look h)

theorem matches_act (a : Action) : Matches Eq (act a) (act a.untracked) :=
  matches_lift (Act.matches_act a)

theorem matches_access {x y : Except AccessRefusal α} {e : α → γ} (h : y.map e = x.map e) :
    Matches (SameBy e) (access x) (access y) := by
  cases x <;> cases y
  · cases h
    exact matches_throw _
  · cases h
  · cases h
  · exact matches_pure (Except.ok.inj h)

theorem matches_heap {x y : Except HeapRefusal α} (h : x = y) : Matches Eq (heap x) (heap y) := by
  subst h
  cases x with
  | error e => exact matches_throw _
  | ok a => exact matches_pure rfl

theorem matches_inspect {f : World → Except AccessRefusal α} {e : α → γ}
    (h : ∀ w v, w.Parallel v → (f v).map e = (f w).map e) :
    Matches (SameBy e) (inspect f) (inspect f) :=
  (matches_look (R := SameBy (Except.map e)) h).bind fun _ _ hxy => matches_access hxy

theorem matches_panic (p : Panic) : Matches R (panic p) (panic p) :=
  (matches_act (.raise p)).bind fun _ _ _ => matches_throw _

theorem matches_tryCatch {a b : Op α} {R : α → α → Prop} {f g : Fault → Op α} (ha : Matches R a b)
    (hf : ∀ fault, Matches R (f fault) (g fault)) : Matches R (tryCatch a f) (tryCatch b g) := by
  intro w v h
  rw [MatchesAt, run_tryCatch, run_tryCatch]
  refine Act.Matches.bind ha (fun x y hxy => ?_) w v h
  cases hxy with
  | ok hxy => exact Act.matches_pure (.ok hxy)
  | error fault => exact hf fault

theorem matches_inManner {a b : Op α} {R : α → α → Prop} (m : Manner) (h : Matches R a b) :
    Matches R (inManner m a) (inManner m b) := by
  cases m with
  | attempt => exact h
  | insist =>
    refine matches_tryCatch h fun fault => ?_
    cases fault with
    | refused cause => exact matches_panic _
    | panicked p => exact matches_throw _
    | inapplicable => exact matches_throw _

theorem matches_quiesce : Matches Eq quiesce quiesce := by
  refine (matches_lift Act.matches_drain).bind fun _ _ _ => ?_
  refine (matches_look (R := Eq) fun w v h => h.twin.unwinding.symm).bind fun p q hpq => ?_
  subst hpq
  cases p with
  | none => exact matches_pure rfl
  | some p => exact matches_throw _

/-- A program as a step that comes to a result or a fault. -/
theorem matches_run {a : Op α} {b : Op β} (h : Matches R a b) :
    Matches (Outcomes R) (ExceptT.lift a.run) (ExceptT.lift b.run) := matches_lift h

theorem MatchesAt.thenClean {a : Op α} {b : Op β} {c d : Act Unit} (h : w.Parallel v)
    (ha : MatchesAt R a b w v) (hc : Act.Matches Eq c d) :
    MatchesAt R (thenClean a c) (thenClean b d) w v := by
  have hlift : MatchesAt (Outcomes R) (ExceptT.lift a.run) (ExceptT.lift b.run) w v :=
    Act.MatchesAt.bind h ha fun w' v' _ _ h' hR _ => Act.matches_pure (.ok hR) w' v' h'
  refine hlift.bind h fun x y w' v' _ h' hxy => ?_
  refine (matches_lift hc).bind (fun _ _ _ => ?_) w' v' h'
  cases hxy with
  | error fault => exact matches_throw fault
  | ok hxy => exact matches_quiesce.bind fun _ _ _ => matches_pure hxy

theorem matches_thenClean {a : Op α} {b : Op β} {c d : Act Unit} (ha : Matches R a b)
    (hc : Act.Matches Eq c d) : Matches R (thenClean a c) (thenClean b d) := fun w v h =>
  (ha w v h).thenClean h hc

theorem matches_granted {a b : Act (Except HeapRefusal α)} (h : Act.Matches Eq a b) :
    Matches Eq (granted a) (granted b) :=
  (matches_lift h).bind fun _ _ hxy => matches_heap hxy

theorem matches_permitted {a b : Act (Except AccessRefusal α)} (h : Act.Matches Eq a b) :
    Matches Eq (permitted a) (permitted b) := by
  refine (matches_lift h).bind fun x y hxy => ?_
  subst hxy
  cases x with
  | error e => exact matches_throw _
  | ok a => exact matches_pure rfl

end Op

end Custody

import Custody.Proofs.Quiescence

/-! Destruction as a sequence. Tasks at the bottom of the list wait: what is done above
them is done as if they were not there. So a list of tasks is worked off from its head,
each task with all that it schedules before the next one, and destroying an element that
holds no handle leaves nothing but the reports of its finalizer. -/

namespace Custody

namespace World

variable {w v : World} {r : RecordId} {rest : List Task}

/-! ### Tasks that wait -/

/-- The world with further tasks below those that are pending. -/
def below (w : World) (rest : List Task) : World := { w with pending := w.pending ++ rest }

@[simp] theorem records_below : (w.below rest).records = w.records := rfl

theorem below_nil (w : World) : w.below [] = w := by
  simp only [below, List.append_nil]

theorem schedule_below (tasks : List Task) :
    (w.below rest).schedule tasks = (w.schedule tasks).below rest := by
  simp only [below, schedule, List.append_assoc]

theorem raise_eq (w : World) (p : Panic) :
    w.raise p = { w with unwinding := w.unwinding.or (some p) } := by
  unfold raise
  rcases hu : w.unwinding with _ | q
  · rfl
  · show w = { w with unwinding := some q }
    rw [← hu]

theorem raise_below (p : Panic) : (w.below rest).raise p = (w.raise p).below rest := by
  rw [raise_eq, raise_eq]
  rfl

theorem invalidate_below (r : RecordId) :
    (w.below rest).invalidate r = (w.invalidate r).below rest := by
  simp only [invalidate, records_below]
  split <;> rfl

theorem returnBlock_below (r : RecordId) :
    (w.below rest).returnBlock r = (w.returnBlock r).below rest := by
  simp only [returnBlock, records_below]
  split
  · rfl
  · split <;> rfl

theorem demolish_below (r : RecordId) : (w.below rest).demolish r = (w.demolish r).below rest := by
  simp only [demolish, records_below]
  split
  · rfl
  · split
    · rfl
    · rw [← schedule_below]
      rfl

theorem orphan_below (r : RecordId) : (w.below rest).orphan r = (w.orphan r).below rest := by
  by_cases ho : (w.records[r]?.any Record.orphaned) = true
  · rw [orphan, if_pos (by exact ho), orphan, if_pos ho]
  · rw [orphan, if_neg (by exact ho), orphan, if_neg ho, ← invalidate_below]
    rfl

theorem dropOwner_below (o : Owner) : (w.below rest).dropOwner o = (w.dropOwner o).below rest := by
  cases o with
  | none => rfl
  | some r =>
    unfold dropOwner
    dsimp only
    rw [schedule_below]
    by_cases hb : (w.schedule [.forget r]).isBorrowed r = true
    · rw [if_pos (by exact hb), if_pos hb, orphan_below, raise_below]
    · rw [if_neg (by exact hb), if_neg hb, demolish_below]

theorem dropSoft_below (s : Soft) : (w.below rest).dropSoft s = (w.dropSoft s).below rest := by
  cases s with
  | none => rfl
  | some k =>
    exact schedule_below (w := w.modifyRecord k.record fun rec => rec.deregister k.ticket) _

theorem forget_below (r : RecordId) : (w.below rest).forget r = (w.forget r).below rest := by
  unfold forget
  dsimp only
  have hm (f : Record → Record) :
      (w.below rest).modifyRecord r f = (w.modifyRecord r f).below rest := rfl
  rw [hm, records_below]
  split_ifs
  · exact demolish_below r
  · rfl

theorem copyBriefly_below (s : Soft) :
    (w.below rest).copyBriefly s = ((w.copyBriefly s).1, (w.copyBriefly s).2.below rest) := by
  cases s with
  | none => rfl
  | some k =>
    simp only [copyBriefly, records_below]
    split
    · rfl
    · split
      · rfl
      · simp only [noteRegistered, modifyRecord, records_below, Prod.mk.injEq]
        refine ⟨rfl, ?_⟩
        split
        · rfl
        · split <;> rfl

/-- A node's finalizer looks at the node observed. -/
def probe (w : World) (value : Int64) (prev : Soft) : World :=
  let seen := w.peekNumber prev
  let (copy, w) := w.copyBriefly prev
  { w with log := .probed value seen (w.isValid prev) copy :: w.log }

theorem probe_below (value : Int64) (prev : Soft) :
    (w.below rest).probe value prev = (w.probe value prev).below rest := by
  unfold probe
  rw [copyBriefly_below]
  rfl

/-- A finalizer reports the node, looks at the node observed if it is set to, and gives
up at its end if it is set to. -/
theorem finalize_eq (value : Int64) (f : Finalizer) (prev : Soft) :
    w.finalize value f prev =
      let v : World := { w with log := .dropped value :: w.log }
      let u := if f.probes then v.probe value prev else v
      if f.panics then u.raise (.finalizer value.toInt) else u := rfl

theorem finalize_below (value : Int64) (f : Finalizer) (prev : Soft) :
    (w.below rest).finalize value f prev = (w.finalize value f prev).below rest := by
  have hprobe :
      (({ w with log := .dropped value :: w.log } : World).below rest).probe value prev = _ :=
    probe_below value prev
  rw [finalize_eq, finalize_eq]
  cases f.probes <;> cases f.panics <;> simp only [Bool.false_eq_true, if_true, if_false]
  · rfl
  · exact raise_below (w := { w with log := .dropped value :: w.log }) _
  · exact hprobe
  · rw [← raise_below, ← hprobe]
    rfl

theorem dropItem_below (i : Item) : (w.below rest).dropItem i = (w.dropItem i).below rest := by
  cases i with
  | node value f next prev =>
    simp only [dropItem, finalize_below, schedule_below]
  | bucket head => exact schedule_below _
  | entry key next => exact schedule_below (w := { w with log := .dropped key :: w.log }) _
  | unit | int | byte => rfl

theorem perform_below (t : Task) : (w.below rest).perform t = (w.perform t).below rest := by
  cases t with
  | dropOwner o => exact dropOwner_below o
  | dropSoft s => exact dropSoft_below s
  | dropItem i => exact dropItem_below i
  | retire r =>
    simp only [perform, invalidate_below, returnBlock_below]
  | forget r => exact forget_below r
  | abandon h b => rfl

theorem tick_below (h : w.pending ≠ []) : (w.below rest).tick = w.tick.below rest := by
  obtain ⟨t, ts, hp⟩ := List.exists_cons_of_ne_nil h
  have hb : (w.below rest).pending = t :: (ts ++ rest) := by simp [below, hp]
  simp only [tick, hp, hb]
  exact perform_below (w := { w with pending := ts }) t

/-- What is pending is done before what waits below it. -/
theorem drain_below (w : World) (rest : List Task) :
    (w.below rest).drain = (w.drain.below rest).drain := by
  obtain ⟨n, hn⟩ := drain_eq_iterate w
  rw [hn]
  clear hn
  induction n generalizing w with
  | zero => rfl
  | succ n ih =>
    by_cases hp : w.pending = []
    · rw [iterate_tick_of_idle hp]
    · rw [← drain_tick, tick_below hp, ih w.tick, Function.iterate_succ_apply]

/-! ### One after the other -/

theorem drain_of_idle (h : w.pending = []) : w.drain = w :=
  drain_of_iterate (show (tick^[0] w).pending = [] from h)

/-- The next task is done before the rest. -/
theorem drain_schedule_cons (t : Task) (ts : List Task) :
    (w.schedule (t :: ts)).drain = ((w.schedule ts).perform t).drain := (drain_tick _).symm

/-- An element is destroyed, with all that goes with it. -/
def destroy (w : World) (i : Item) : World := (w.schedule [.dropItem i]).drain

theorem pending_destroy (i : Item) : (w.destroy i).pending = [] := pending_drain _

theorem schedule_eq_below (h : w.pending = []) (tasks : List Task) :
    w.schedule tasks = w.below tasks := by
  simp only [schedule, below, h, List.append_nil, List.nil_append]

/-- Some tasks are done, with all that goes with them, before others. -/
theorem drain_schedule_append (h : w.pending = []) (ts us : List Task) :
    (w.schedule (ts ++ us)).drain = ((w.schedule ts).drain.schedule us).drain := by
  have hsplit : w.schedule (ts ++ us) = (w.schedule ts).below us := by
    simp only [schedule, below, h, List.append_nil]
  rw [hsplit, drain_below, schedule_eq_below (pending_drain _)]

theorem drain_schedule_dropItem (h : w.pending = []) (i : Item) (ts : List Task) :
    (w.schedule (.dropItem i :: ts)).drain = ((w.destroy i).schedule ts).drain :=
  drain_schedule_append h [.dropItem i] ts

/-- Elements that are to be destroyed are destroyed one after the other, each with all
that goes with it, and then what comes after them is done. -/
theorem drain_schedule_items (h : w.pending = []) (items : List Item) (ts : List Task) :
    (w.schedule (items.map .dropItem ++ ts)).drain =
      ((items.foldl destroy w).schedule ts).drain := by
  induction items generalizing w with
  | nil => rfl
  | cons i items ih =>
    rw [List.map_cons, List.cons_append, drain_schedule_dropItem h, ih (pending_destroy i),
      List.foldl_cons]

theorem pending_foldl_destroy (h : w.pending = []) (items : List Item) :
    (items.foldl destroy w).pending = [] := by
  induction items generalizing w with
  | nil => exact h
  | cons i items ih => exact ih (pending_destroy i)

/-- The elements of an array that was never finished are destroyed one after the other;
then its block goes back, and then what was pending before is done. -/
theorem drain_abandon (w : World) (items : List Item) (h : HeapId) (b : Block) :
    (w.schedule (items.map .dropItem ++ [.abandon h b])).drain =
      (((items.foldl destroy { w with pending := [] }).modifyHeap h (·.release b false)).below
        w.pending).drain := by
  have hsplit : w.schedule (items.map .dropItem ++ [.abandon h b]) =
      (({ w with pending := [] } : World).schedule (items.map .dropItem ++ [.abandon h b])).below
        w.pending := by
    simp only [schedule, below, List.append_nil]
  have hidle := pending_foldl_destroy (w := { w with pending := [] }) rfl items
  rw [hsplit, drain_below, drain_schedule_items rfl, drain_schedule_cons]
  exact congrArg (fun u : World => (u.below w.pending).drain) (drain_of_idle hidle)

/-! ### Elements without handles -/

end World

/-- Whether an element holds no handle. -/
def Item.IsBare (i : Item) : Prop := i.link = none ∧ i.back = none

/-- What the destruction of an element without handles reports, the latest first. -/
def Item.reports : Item → List Event
  | .node value f _ _ =>
    (if f.probes then [.probed value (.error .null) false (some (true, false))] else []) ++
      [.dropped value]
  | .entry key _ => [.dropped key]
  | _ => []

/-- What the destruction of elements without handles, one after the other, reports, the
latest first. -/
def Item.reportsOf (items : List Item) : List Event := items.reverse.flatMap Item.reports

/-- The panic with which the finalizer of an element gives up. -/
def Item.panic? : Item → Option Panic
  | .node value f _ _ => if f.panics then some (.finalizer value.toInt) else none
  | _ => none

theorem Seed.isBare_item (s : Seed) : s.item.IsBare := by
  cases s <;> exact ⟨rfl, rfl⟩

namespace World

variable {w : World}

/-- Finalizers reported `events`, the latest first. -/
def report (w : World) (events : List Event) : World := { w with log := events ++ w.log }

theorem finalize_of_null (value : Int64) (f : Finalizer) :
    w.finalize value f none =
      let i := Item.node value f none none
      i.panic?.elim (w.report i.reports) (w.report i.reports).raise := by
  rw [finalize_eq]
  cases hp : f.probes <;> cases hq : f.panics <;>
    simp only [report, Item.reports, Item.panic?, hp, hq, Bool.false_eq_true, if_true,
      if_false] <;> rfl

/-- Destroying an element without handles leaves nothing but its reports, and its panic
if it gives up. -/
theorem destroy_of_bare {i : Item} (hi : i.IsBare) (h : w.pending = []) :
    w.destroy i = i.panic?.elim (w.report i.reports) (w.report i.reports).raise := by
  rw [destroy, drain_schedule_cons]
  cases i with
  | node value f next prev =>
    obtain ⟨rfl, rfl⟩ : next = none ∧ prev = none := hi
    have hu : (w.finalize value f none).pending = [] :=
      (keeps_finalize value f none).pending.trans h
    show ((w.finalize value f none).schedule [.dropOwner none, .dropSoft none]).drain = _
    rw [drain_schedule_cons, perform, dropOwner, drain_schedule_cons, perform, dropSoft]
    exact (drain_of_idle hu).trans (finalize_of_null value f)
  | bucket head =>
    obtain rfl : head = none := hi.1
    show (w.schedule [.dropOwner none]).drain = _
    rw [drain_schedule_cons]
    exact drain_of_idle h
  | entry key next =>
    obtain rfl : next = none := hi.1
    show ((w.report [.dropped key]).schedule [.dropOwner none]).drain = _
    rw [drain_schedule_cons]
    exact drain_of_idle h
  | unit | int | byte => exact drain_of_idle h

/-- Elements without handles that are destroyed leave only their reports, if no finalizer
gives up or a panic unwinds already. -/
theorem foldl_destroy_of_bare {items : List Item} (hb : ∀ x ∈ items, x.IsBare)
    (hq : (∀ x ∈ items, x.panic? = none) ∨ w.unwinding.isSome = true) (hp : w.pending = []) :
    items.foldl destroy w = w.report (Item.reportsOf items) := by
  induction items generalizing w with
  | nil => rfl
  | cons x items ih =>
    have hx : w.destroy x = w.report x.reports := by
      rw [destroy_of_bare (hb x (by simp)) hp]
      cases hpanic : x.panic? with
      | none => rfl
      | some p =>
        obtain hnone | hu := hq
        · rw [hnone x (by simp)] at hpanic
          cases hpanic
        · exact if_pos hu
    rw [List.foldl_cons, hx, ih (w := w.report x.reports) (fun y hy => hb y (by simp [hy]))
      (hq.imp_left fun h y hy => h y (by simp [hy])) hp]
    simp only [report, Item.reportsOf, List.reverse_cons, List.flatMap_append,
      List.flatMap_singleton, List.append_assoc]

end World

end Custody

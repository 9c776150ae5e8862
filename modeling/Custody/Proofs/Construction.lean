import Custody.World.Filling
import Custody.Proofs.Draining

/-! Arrays are built in full or not at all. If no block is laid out and granted, the
initialiser is not called and the world stays as it is. Otherwise it is called for one
index after the other: either for all of them, and then the elements that it built are the
object of a new record; or until it gives up, and then just the elements built so far are
destroyed, in their order, and the block goes back to the arena. Main result:
`assemble_all_or_nothing`. -/

namespace Custody

/-- `Calls init w is items v`: the initialiser is called for the indices `is`, one after
the other; it builds `items`, and leads from `w` to `v`. -/
inductive Calls (init : Initializer) : World → List Nat → List Item → World → Prop
  | nil (w : World) : Calls init w [] [] w
  | cons {w u v : World} {i : Nat} {x : Item} {is : List Nat} {items : List Item} :
    (init i).run w = (.ok x, u) → Calls init u is items v → Calls init w (i :: is) (x :: items) v

theorem Calls.length_eq {init : Initializer} {w v : World} {is : List Nat} {items : List Item}
    (h : Calls init w is items v) : items.length = is.length := by
  induction h with
  | nil => rfl
  | cons _ _ ih => rw [List.length_cons, List.length_cons, ih]

/-! ### The loop -/

namespace Filling

variable {init : Initializer} {w : World}

/-- The places of `items` are written, and `m` are left. -/
def upTo (items : List Item) (m : Nat) : Filling :=
  ⟨items.map some ++ List.replicate m none, items.length⟩

theorem blank_eq_upTo (n : Nat) : blank n = upTo [] n := rfl

theorem items_upTo (items : List Item) (m : Nat) : (upTo items m).items = items := by
  simp [Filling.items, upTo]

theorem write_upTo (items : List Item) (m : Nat) (x : Item) :
    (upTo items (m + 1)).write x = upTo (items ++ [x]) m := by
  simp [write, upTo, List.replicate_succ]

theorem fill_upTo_zero (items : List Item) :
    (upTo items 0).fill init = pure (none, upTo items 0) := by
  rw [fill, if_neg (by simp [upTo])]

theorem run_fill_upTo (init : Initializer) (w : World) (items : List Item) (m : Nat) :
    ((upTo items (m + 1)).fill init).run w =
      match (init items.length).run w with
      | (.error p, v) => ((some p, upTo items (m + 1)), v)
      | (.ok x, v) => ((upTo (items ++ [x]) m).fill init).run v := by
  have hopen : (upTo items (m + 1)).written < (upTo items (m + 1)).places.length := by simp [upTo]
  have hcall : (init (upTo items (m + 1)).written).run w = (init items.length).run w := rfl
  rw [fill, if_pos hopen, Act.run_bind, hcall]
  rcases (init items.length).run w with ⟨p | x, v⟩
  · rfl
  · dsimp only
    rw [write_upTo]

/-- The initialiser is called for the places that are left, up to the one where it gives
up. The places written are those of the elements that it built. -/
theorem run_fill (init : Initializer) (w : World) (items : List Item) (m : Nat) :
    (∃ new v, Calls init w (List.range' items.length m) new v ∧
      ((upTo items m).fill init).run w = ((none, upTo (items ++ new) 0), v)) ∨
    ∃ i new v p v', i < m ∧ Calls init w (List.range' items.length i) new v ∧
      (init (items.length + i)).run v = (.error p, v') ∧
      ((upTo items m).fill init).run w = ((some p, upTo (items ++ new) (m - i)), v') := by
  induction m generalizing items w with
  | zero =>
    refine .inl ⟨[], w, .nil w, ?_⟩
    rw [fill_upTo_zero, List.append_nil]
    rfl
  | succ m ih =>
    cases hcall : (init items.length).run w with
    | mk answer u =>
      have hrun := run_fill_upTo init w items m
      rw [hcall] at hrun
      cases answer with
      | error p =>
        refine .inr ⟨0, [], w, p, u, Nat.succ_pos m, .nil w, hcall, ?_⟩
        rw [hrun, List.append_nil]
        rfl
      | ok x =>
        have hlen : (items ++ [x]).length = items.length + 1 := by simp
        have happ (new : List Item) : items ++ [x] ++ new = items ++ x :: new := by simp
        rcases ih u (items ++ [x]) with ⟨new, v, hcalls, hfill⟩ |
          ⟨i, new, v, p, v', hi, hcalls, hstop, hfill⟩
        · rw [hlen] at hcalls
          rw [happ] at hfill
          exact .inl ⟨x :: new, v, .cons hcall hcalls, hrun.trans hfill⟩
        · rw [hlen] at hcalls hstop
          rw [happ] at hfill
          refine .inr ⟨i + 1, x :: new, v, p, v', Nat.succ_lt_succ hi, .cons hcall hcalls, ?_, ?_⟩
          · rw [← hstop, Nat.add_assoc, Nat.add_comm 1]
          · rw [hrun, Nat.add_sub_add_right]
            exact hfill

end Filling

/-! ### What becomes of an array -/

namespace World

section Assembling

variable (init : Initializer) (w : World) (h : HeapId) (k : Kind) (element : Layout) (n : Nat)

/-- No block is laid out or granted. No initialiser is called, and nothing changes. -/
structure Refuses (e : HeapRefusal) : Prop where
  reason : element.array n = none ∧ e = .layoutOverflow n ∨
    ∃ payload, element.array n = some payload ∧ w.allocate h payload (k.recorded n) = .error e
  unchanged : ∀ any, w.assemble h k element n any = (.error e, w)

/-- Block `b` is granted; the heap counts it, and nothing else has changed in `u`. -/
structure Supplies (b : Block) (u : World) : Prop where
  granted : ∃ payload, element.array n = some payload ∧
    w.allocate h payload (k.recorded n) = .ok (b, u)
  counted : u = { w with arena := u.arena }.modifyHeap h (·.noteAllocated b)
  elements : b.elements = k.recorded n
  payload : b.payloadSize = element.size * n

/-- The initialiser is called for every index in order, and leads to `v`. What it built is
the object of a new record, the only one that is new. -/
structure Completes (b : Block) (u : World) (items : List Item) (v : World) : Prop where
  supplies : w.Supplies h k element n b u
  calls : Calls init u (List.range n) items v
  length : items.length = n
  built : w.assemble h k element n init =
    (.ok v.owners.size, { v with
      records := v.records.push (v.recordOf h k items b)
      owners := v.owners.push (some v.records.size) })

/-- The initialiser is called for the indices below `i` in order, and leads to `v`; then it
gives up at `i`, in `v'`. The elements that it built are destroyed one after the other,
then the block goes back unkept, and then destruction goes on with what was pending. -/
structure GivesUp (b : Block) (u : World) (i : Nat) (items : List Item) (v : World) (p : Panic)
    (v' : World) : Prop where
  supplies : w.Supplies h k element n b u
  early : i < n
  calls : Calls init u (List.range i) items v
  stops : (init i).run v = (.error p, v')
  /-- The variable that was meant for the owner stays empty. -/
  answer : (w.assemble h k element n init).1 = .ok v'.owners.size
  due : (w.assemble h k element n init).2.pending =
    items.map Task.dropItem ++ Task.abandon h b :: v'.pending
  cleared : (w.assemble h k element n init).2.drain =
    (((items.foldl destroy
      ({ v' with pending := [], owners := v'.owners.push none }.raise p)).modifyHeap h
        (·.release b false)).below v'.pending).drain
  /-- No record is made and nobody is registered, but by the initialiser. -/
  records : (w.assemble h k element n init).2.records = v'.records
  heaps : (w.assemble h k element n init).2.heaps = v'.heaps
  /-- Elements without handles leave only their reports. -/
  bare : (∀ x ∈ items, x.IsBare) → v'.pending = [] →
    (w.assemble h k element n init).2.drain =
      (({ v' with
        owners := v'.owners.push none
        heaps := v'.heaps.modify h (·.release b false) }.report (Item.reportsOf items)).raise p)
  /-- If the initialiser left the heaps alone, one allocation and one deallocation more are
  all that is left. -/
  balance : (∀ x ∈ items, x.IsBare) → v'.pending = [] → v'.heaps = u.heaps →
    (w.assemble h k element n init).2.drain.heaps = w.heaps.modify h fun heap =>
      { heap with stats := { heap.stats with
          allocations := heap.stats.allocations + 1
          deallocations := heap.stats.deallocations + 1 } }

end Assembling

variable {init : Initializer} {w u v v' : World} {h : HeapId} {k : Kind} {element : Layout}
  {n i : Nat} {payload : Layout} {b : Block} {items : List Item} {p : Panic}

theorem refuses_of_overflow (hl : element.array n = none) :
    w.Refuses h k element n (.layoutOverflow n) :=
  ⟨.inl ⟨hl, rfl⟩, fun any => by simp only [assemble, buildBy, hl]⟩

theorem refuses_of_allocate {e : HeapRefusal} (hl : element.array n = some payload)
    (ha : w.allocate h payload (k.recorded n) = .error e) : w.Refuses h k element n e :=
  ⟨.inr ⟨payload, hl, ha⟩, fun any => by simp only [assemble, buildBy, hl, ha]⟩

theorem supplies_of_allocate (hl : element.array n = some payload)
    (ha : w.allocate h payload (k.recorded n) = .ok (b, u)) : w.Supplies h k element n b u := by
  obtain ⟨arena, hb, rfl⟩ := allocate_eq_ok ha
  have hsize : payload.size = element.size * n := Layout.size_of_array hl
  refine ⟨⟨payload, hl, ha⟩, rfl, ?_, ?_⟩ <;>
  · simp only [Arena.allocate] at hb
    split at hb
    · cases hb
    · split at hb <;> cases hb
      first | rfl | exact hsize

/-- Counting a block and taking it back unkept changes two counters. -/
theorem release_noteAllocated (heap : Heap) (b : Block) :
    (heap.noteAllocated b).release b false = { heap with stats := { heap.stats with
      allocations := heap.stats.allocations + 1
      deallocations := heap.stats.deallocations + 1 } } := by
  simp [Heap.release, Heap.noteAllocated, Stats.allocated, Stats.released]

theorem isSome_unwinding_raise (p : Panic) : (w.raise p).unwinding.isSome = true := by
  rw [raise_eq]
  cases w.unwinding <;> rfl

theorem assemble_of_panic (hg : w.Supplies h k element n b u) (hi : i < n)
    (hc : Calls init u (List.range i) items v) (hs : (init i).run v = (.error p, v'))
    (hfill : ((Filling.blank n).fill init).run u = ((some p, .upTo items (n - i)), v')) :
    GivesUp init w h k element n b u i items v p v' := by
  obtain ⟨payload, hl, ha⟩ := hg.granted
  have hbuilt : w.assemble h k element n init = (.ok v'.owners.size,
      ({ v' with owners := v'.owners.push none }.schedule
        (items.map Task.dropItem ++ [Task.abandon h b])).raise p) := by
    simp only [assemble, buildBy, hl, ha, hfill, Filling.items_upTo]
  set cleanup : World :=
    { v' with pending := [], owners := v'.owners.push none }.raise p with hcleanup
  have hcleared : (w.assemble h k element n init).2.drain =
      (((items.foldl destroy cleanup).modifyHeap h (·.release b false)).below
        v'.pending).drain := by
    have hdrain := drain_abandon ({ v' with owners := v'.owners.push none }.raise p) items h b
    rw [raise_eq] at hdrain
    rw [hbuilt, hcleanup, raise_eq, raise_eq]
    exact hdrain
  have hbare (hi : ∀ x ∈ items, x.IsBare) (hp : v'.pending = []) :
      (w.assemble h k element n init).2.drain =
        (({ v' with
          owners := v'.owners.push none
          heaps := v'.heaps.modify h (·.release b false) }.report (Item.reportsOf items)).raise
            p) := by
    have hidle : cleanup.pending = [] := by rw [hcleanup, raise_eq]
    rw [hcleared, foldl_destroy_of_bare hi (.inr (isSome_unwinding_raise p)) hidle, hp, below_nil]
    refine (drain_of_idle (by exact hidle)).trans ?_
    rw [raise_eq, raise_eq, ← hp]
    rfl
  refine ⟨hg, hi, hc, hs, by rw [hbuilt], ?_, hcleared, ?_, ?_, hbare, fun hitems hp hheaps => ?_⟩
  · rw [hbuilt, raise_eq]
    exact List.append_assoc ..
  · rw [hbuilt, raise_eq]
    rfl
  · rw [hbuilt, raise_eq]
    rfl
  · rw [hbare hitems hp, raise_eq]
    show v'.heaps.modify h (·.release b false) = _
    rw [hheaps, hg.counted]
    show (w.heaps.modify h (·.noteAllocated b)).modify h (·.release b false) = _
    refine Array.ext_getElem? fun j => ?_
    simp only [Array.getElem?_modify]
    split_ifs
    · simp only [Option.map_map, Function.comp_def, release_noteAllocated]
    · rfl

/-! ### Plans -/

/-- The initialiser of a plan changes nothing, and builds what the plan says. -/
theorem calls_plan {plan : Plan} {is : List Nat} (hc : Calls plan.initializer w is items v) :
    v = w ∧ items = is.map (fun i => (plan.seed i).item) ∧ ∀ i ∈ is, plan.stop ≠ some i := by
  induction hc with
  | nil => exact ⟨rfl, rfl, by simp⟩
  | @cons w u v i x is items hcall _ ih =>
    obtain ⟨rfl, rfl, hstop⟩ := ih
    simp only [Plan.initializer] at hcall
    split_ifs at hcall with hi
    · cases hcall
    · obtain ⟨hx, rfl⟩ := Prod.mk.inj hcall
      cases hx
      exact ⟨rfl, rfl, by simpa [hi] using hstop⟩

theorem stop_plan {plan : Plan} (hs : (plan.initializer i).run v = (.error p, v')) :
    v' = v ∧ plan.stop = some i ∧ p = .builder i := by
  simp only [Plan.initializer] at hs
  split_ifs at hs with hi
  · obtain ⟨hp, rfl⟩ := Prod.mk.inj hs
    cases hp
    exact ⟨rfl, hi, rfl⟩
  · cases hs

/-- The initialiser of a plan leads to what the plan says is built. -/
theorem run_fill_plan (plan : Plan) (u : World) :
    (let ((stopped, f), v) := ((Filling.blank plan.count.toNat).fill plan.initializer).run u
    ((stopped, f.items), v)) = (plan.built, u) := by
  rcases Filling.run_fill plan.initializer u [] plan.count.toNat with
    ⟨items, v, hc, hfill⟩ | ⟨i, items, v, p, v', hi, hc, hs, hfill⟩ <;>
    rw [← Filling.blank_eq_upTo, List.nil_append] at hfill
  · obtain ⟨rfl, rfl, hstop⟩ := calls_plan hc
    have hnone : plan.stop? = none := Option.filter_eq_none_iff.mpr fun i hi hlt =>
      hstop i (by simpa using hlt) hi
    simp only [hfill, Plan.built, hnone, Filling.items_upTo, Plan.items, List.range_eq_range',
      List.length_nil]
  · obtain ⟨rfl, rfl, -⟩ := calls_plan hc
    obtain ⟨rfl, hstop, rfl⟩ := stop_plan hs
    simp only [List.length_nil, Nat.zero_add] at hstop
    have hsome : plan.stop? = some i := by simp [Plan.stop?, hstop, hi]
    simp only [hfill, Plan.built, hsome, Filling.items_upTo, Plan.items, List.range_eq_range',
      List.length_nil, Nat.zero_add]

/-- Building from a plan is building with its initialiser. -/
theorem construct_eq_assemble (w : World) (h : HeapId) (k : Kind) (plan : Plan) :
    w.construct h k plan =
      w.assemble h k k.element.layout plan.count.toNat plan.initializer :=
  congrArg (w.buildBy h k (k.layout plan.count.toNat) plan.count.toNat)
    (funext fun u => (run_fill_plan plan u).symm)

/-- An array is built in full or not at all, for every heap, length and layout of the
elements, and whatever the initialiser does. Building from a plan is a case of this. -/
theorem assemble_all_or_nothing (init : Initializer) (w : World) (h : HeapId) (k : Kind)
    (element : Layout) (n : Nat) :
    ((∃ e, w.Refuses h k element n e) ∨
      (∃ b u items v, Completes init w h k element n b u items v) ∨
      ∃ b u i items v p v', GivesUp init w h k element n b u i items v p v') ∧
    ∀ plan : Plan, w.construct h k plan =
      w.assemble h k k.element.layout plan.count.toNat plan.initializer := by
  refine ⟨?_, construct_eq_assemble w h k⟩
  cases hl : element.array n with
  | none => exact .inl ⟨_, refuses_of_overflow hl⟩
  | some payload =>
    cases ha : w.allocate h payload (k.recorded n) with
    | error e => exact .inl ⟨e, refuses_of_allocate hl ha⟩
    | ok granted =>
      obtain ⟨b, u⟩ := granted
      have hg := supplies_of_allocate hl ha
      rcases Filling.run_fill init u [] n with ⟨items, v, hc, hfill⟩ |
        ⟨i, items, v, p, v', hi, hc, hs, hfill⟩
      · refine .inr (.inl ⟨b, u, items, v, hg, ?_, ?_, ?_⟩)
        · rwa [List.range_eq_range']
        · simpa using hc.length_eq
        · rw [← Filling.blank_eq_upTo] at hfill
          simp only [assemble, buildBy, hl, ha, hfill, Filling.items_upTo, List.nil_append]
      · refine .inr (.inr ⟨b, u, i, items, v, p, v', assemble_of_panic hg hi ?_ ?_ ?_⟩)
        · rwa [List.range_eq_range']
        · simpa using hs
        · simpa [Filling.blank_eq_upTo] using hfill

/-- An array of five nodes that is given up at the fourth: three nodes report, and nothing
is left but two counts. -/
example :
    let w := ((start defaultGrant).construct 0 ⟨.array, .node, .tracked⟩
      ⟨5, fun i => .node (Int64.ofNat i) .plain, some 3⟩).2.drain
    w.log.length = 3 ∧ w.records = #[] ∧ w.unwinding = some (.builder 3) ∧
      w.heaps[0]?.map Heap.stats = some ⟨1, 1, 0, 0, 0, 0, 0, 0, 0⟩ := by
  decide +kernel

end World

end Custody

import Custody.Proofs.Construction
import Custody.Proofs.Exchanges

/-! Values that an owner is to hold. A value either comes into an object that is built for it,
with its handles, or it is destroyed, with its handles. In both cases the variables of these are
left empty, and whatever else the program can reach in variables and in borrowed objects is as it
was. -/

namespace Custody

namespace Plan

/-- The elements of an object that is built in full. -/
def all (p : Plan) : List Item := p.items p.count.toNat

theorem isBare_all (p : Plan) : ∀ x ∈ p.all, x.IsBare := by
  intro x hx
  obtain ⟨i, -, rfl⟩ := List.mem_map.mp hx
  exact (p.seed i).isBare_item

end Plan

namespace World

/-- The handles for a node are in variables that nobody borrows through, and the owner is not the
one that is to hold the node. -/
structure HoldsHandles (w : World) (o : OwnerPlace) (i : Nat) (q : SoftPlace) : Prop where
  next : i < w.owners.size
  prev : (w.soft? q).isSome = true
  loose : q.isLoose = true
  nextFree : w.isLent (.owner i) = false
  prevFree : w.isLent (.soft q) = false
  apart : o ≠ .owner i

end World

namespace Value

/-- The elements of the object: those of the plan, or the node with its handles. -/
def items (w : World) : Value → List Item
  | .plain _ p => p.all
  | .node _ v f i q => [.node v f (w.owner i) (w.soft q)]

/-- The world once the handles of a value left their variables. -/
def leave (w : World) : Value → World
  | .plain .. => w
  | .node _ _ _ i q => (w.setOwner i none).vacate q

/-- The world once a value that got no object was destroyed. -/
def destroyedIn (w : World) : Value → World
  | .plain _ p => w.report (Item.reportsOf p.all)
  | .node _ v f i q => ((w.setOwner i none).vacate q).destroy (.node v f (w.owner i) (w.soft q))

/-- A value that is there, for the owner in a place: it was built in full, and its handles are at
hand. -/
def IsAtHand (w : World) (o : OwnerPlace) : Value → Prop
  | .plain _ p => p.stop = none
  | .node _ _ _ i q => w.HoldsHandles o i q

/-- A value that is destroyed in `w` without a panic. -/
def IsTame (w : World) : Value → Prop
  | .plain _ p => ∀ x ∈ p.all, x.panic? = none
  | .node m v f i q => (destroyedIn w (.node m v f i q)).unwinding = none

variable {v w : World} {o : OwnerPlace} {x : Value}

theorem stop_plan (hx : x.IsAtHand w o) : x.plan.stop = none := by
  cases x with
  | plain k p => exact hx
  | node m n f i q => rfl

/-- Handles stay at hand as long as their variables and all guards stay. -/
theorem IsAtHand.congr (hx : x.IsAtHand w o) (ho : w.owners.size ≤ v.owners.size)
    (hs : v.soft? = w.soft?) (hg : v.guards = w.guards) : x.IsAtHand v o := by
  cases x with
  | plain k p => exact hx
  | node m n f i q =>
    exact
      { next := lt_of_lt_of_le hx.next ho
        prev := hs ▸ hx.prev
        loose := hx.loose
        nextFree := by rw [World.isLent, hg]; exact hx.nextFree
        prevFree := by rw [World.isLent, hg]; exact hx.prevFree
        apart := hx.apart }

end Value

namespace World

variable {u v w : World} {o : OwnerPlace} {x : Value} {r : RecordId}

/-! ### Handles that leave their variables -/

/-- The owner that is to hold a value is none of the handles in it. -/
theorem owner?_leave {i : Nat} (hx : x.IsAtHand w (.owner i)) :
    (x.leave w).owner? i = w.owner? i := by
  cases x with
  | plain k p => rfl
  | node m n f j q =>
    have hij : j ≠ i := fun h => hx.apart (congrArg _ h.symm)
    have hvacate (v : World) : (v.vacate q).owner? i = v.owner? i := by cases q <;> rfl
    rw [Value.leave, hvacate, owner?, owner?, setOwner, Array.getElem?_setIfInBounds_ne hij]

theorem owner_leave {i : Nat} (hx : x.IsAtHand w (.owner i)) : (x.leave w).owner i = w.owner i :=
  congrArg (·.getD none) (owner?_leave hx)

theorem size_owners_leave (x : Value) : (x.leave w).owners.size = w.owners.size := by
  cases x with
  | plain k p => rfl
  | node m n f i q => cases q <;> exact Array.size_setIfInBounds

/-! ### Values that are destroyed -/

/-- A value is destroyed, and whatever else there is in variables and in borrowed objects stays. -/
structure Loses (w : World) (x : Value) (v : World) : Prop where
  hands : v.hands = (x.leave w).hands
  guards : v.guards = w.guards
  objects : ∀ r, w.IsGuarded r → v.object? r = w.object? r
  gone : ∀ r, w.IsGone r → v.IsGone r

theorem Loses.ownerAt (h : w.Loses x v) (hx : x.IsAtHand w o) : v.ownerAt o = w.ownerAt o := by
  refine ownerAt_congr (fun i hi => ?_) h.guards h.objects
  subst hi
  exact (owner_congr h.hands i).trans (owner_leave hx)

theorem scrapNode_of_holdsHandles {n : Int64} {f : Finalizer} {i : Nat} {q : SoftPlace}
    (h : w.HoldsHandles o i q) : w.scrapNode n f i q =
      ((w.setOwner i none).vacate q).schedule [.dropItem (.node n f (w.owner i) (w.soft q))] := by
  simp [scrapNode, h.loose, h.nextFree, h.prevFree]

theorem Reachable.loses (h : w.Reachable) (hx : x.IsAtHand w o) : w.Loses x (x.destroyedIn w) := by
  cases x with
  | plain k p =>
    exact
      { hands := rfl
        guards := rfl
        objects := fun _ _ => rfl
        gone := fun r hr => ⟨hr.object, hr.block, hr.told, hr.invalid⟩ }
  | node m n f i q =>
    have hscrap : (Value.node m n f i q).destroyedIn w = (w.scrapNode n f i q).drain := by
      rw [scrapNode_of_holdsHandles hx]
      rfl
    have hreach : w.Reaches (w.scrapNode n f i q).drain :=
      (Reaches.once (.scrapNode n f i q)).trans (reaches_drain _)
    have hguards : (w.scrapNode n f i q).drain.guards = w.guards :=
      guards_of_book (book_drain.trans (book_scrapNode n f i q))
    have hobjects (r) : Stays r w (w.scrapNode n f i q).drain :=
      (stays_congr (object?_congr (records_scrapNode n f i q))).trans (stays_drain _ r)
    rw [hscrap]
    refine
      { hands := ?_
        guards := hguards
        objects := fun r hr => ?_
        gone := fun r hr => h.isGone_later hr hreach }
    · rw [hands_drain, scrapNode_of_holdsHandles hx]
      rfl
    · exact (h.reaches hreach).sound.object?_of_stays (hobjects r) (by rwa [IsGuarded, hguards])

theorem pending_destroyedIn (hp : w.pending = []) (x : Value) : (x.destroyedIn w).pending = [] := by
  cases x with
  | plain k p => exact hp
  | node m n f i q => exact pending_destroy _

theorem unwinding_destroyedIn (hu : w.unwinding = none) (ht : x.IsTame w) :
    (x.destroyedIn w).unwinding = none := by
  cases x with
  | plain k p => exact hu
  | node m n f i q => exact ht

end World

namespace Op

open World

variable {u v w : World} {o : OwnerPlace} {x : Value} {h : HeapId} {i j : Nat} {r : RecordId}
  {rec : Record}

theorem run_scrap (hx : x.IsAtHand w o) (hp : w.pending = [])
    (ht : x.IsTame w ∨ w.unwinding.isSome = true) : (scrap x).run w = ((), x.destroyedIn w) := by
  cases x with
  | plain k p =>
    have hrun (is : List Nat) (w : World) :
        (is.forM fun i => do
          Act.act (.scrap (p.seed i))
          Act.drain : Act Unit).run w =
          ((), (is.map fun i => (p.seed i).item).foldl World.destroy w) := by
      induction is generalizing w with
      | nil => rfl
      | cons i is ih =>
        rw [List.forM, Act.run_bind, ih]
        rfl
    exact (hrun _ w).trans (congrArg _ (foldl_destroy_of_bare p.isBare_all ht hp))
  | node m n f i q =>
    have hrun : (scrap (.node m n f i q)).run w = ((), (w.scrapNode n f i q).drain) := rfl
    rw [hrun, scrapNode_of_holdsHandles hx]
    rfl

/-- The handles of a value come into the object that variable `j` owns. -/
theorem run_furnish (hw : w.Sound) (hc : w.IsCalm) (hj : w.owner j = some r)
    (hr : w.records[r]? = some rec) (ha : rec.isAlive = true) (hb : rec.borrow = .none)
    (ho : rec.object = some x.plan.all) (hx : x.IsAtHand w (.owner j)) :
    ∃ v, (furnish j x).run.run w = (.ok (), v) ∧ v.hands = (x.leave w).hands ∧ v.guards = w.guards ∧
      w.Replaces r { rec with object := some (x.items w) } v := by
  cases x with
  | plain k p =>
    refine ⟨w, rfl, rfl, rfl, fun q => ?_⟩
    have hsame : { rec with object := some p.all } = rec := by
      change rec.object = some p.all at ho
      rw [← ho]
    split_ifs with hq
    · rw [← hq, hr, Value.items, hsame]
    · rfl
  | node m n f i q =>
    obtain ⟨s, hs⟩ := Option.isSome_iff_exists.mp hx.prev
    have hi : w.owner? i = some (w.owner i) := by simp [owner, owner?, hx.next]
    have hsoft : w.soft q = s := by rw [soft, hs, Option.getD_some]
    have hij : i ≠ j := fun h => hx.apart (congrArg _ h.symm)
    refine ⟨_, run_furnish_node hw hc hj hr ha hb ho hi hs hx.loose hij hx.nextFree
      hx.prevFree, rfl, by cases q <;> rfl, ?_⟩
    rw [Value.items, hsoft]
    exact replaces_modifyRecord hr _

/-- A value that gets no block is destroyed. -/
theorem run_place_of_error {e : HeapRefusal} (he : w.construct h x.kind x.plan = (.error e, w))
    (hc : w.IsCalm) (hx : x.IsAtHand w o) (ht : x.IsTame w) :
    (place h x).run.run w = (.error (.refused (.heap e)), x.destroyedIn w) := by
  have hact : (Act.construct h x.kind x.plan).run w = (.error e, w) := he
  have hidle := drain_of_idle (pending_destroyedIn hc.pending x)
  have hquiesce : quiesce.run.run (x.destroyedIn w) = (.ok (), x.destroyedIn w) := by
    rw [run_quiesce, hidle, unwinding_destroyedIn hc.unwinding ht]
  rw [place, run_bind, run_lift, hact]
  dsimp only
  rw [run_bind, run_lift, run_scrap hx hc.pending (.inl ht)]
  dsimp only
  rw [run_bind, hquiesce]
  rfl

theorem run_place_of_ok (he : w.construct h x.kind x.plan = (.ok j, u))
    (hf : (furnish j x).run.run u = (.ok (), v)) : (place h x).run.run w = (.ok j, v) := by
  have hact : (Act.construct h x.kind x.plan).run w = (.ok j, u) := he
  rw [place, run_bind, run_lift, hact]
  dsimp only
  rw [run_bind, hf]
  rfl

end Op

/-! ### New objects -/

/-- The record of a new object: its owner is the only handle, and all inline slots are free. -/
structure Record.IsNew (rec : Record) (h : HeapId) (k : Kind) (items : List Item) : Prop where
  object : rec.object = some items
  block : rec.block.isSome = true
  heap : rec.heap = h
  kind : rec.kind = k
  owned : rec.orphaned = false
  free : rec.borrow = .none
  handles : rec.handles = 1
  observers : rec.slots.count = 0
  slots : rec.slots.capacity = SlotTable.initial

theorem Record.IsNew.isAlive {rec : Record} {h : HeapId} {k : Kind} {items : List Item}
    (hn : rec.IsNew h k items) : rec.isAlive = true := by
  simp [Record.isAlive, hn.object, hn.owned]

namespace World

variable {u v w z : World} {o : OwnerPlace} {x : Value} {p : Plan} {r : RecordId}

/-- The object of a value is built in `u`, leading to `v`: its owner is in a new variable, and the
handles of the value came into it. -/
structure IsBuilt (u : World) (h : HeapId) (x : Value) (v : World) : Prop where
  record : ∃ rec, v.records = u.records.push rec ∧ rec.IsNew h x.kind (x.items u)
  hands : v.hands = (x.leave { u with owners := u.owners.push (some u.records.size) }).hands
  guards : v.guards = u.guards

/-- Building in full from a plan, on what is granted or refused. -/
theorem construct_cases (w : World) (h : HeapId) (k : Kind) (hp : p.stop = none) :
    (∃ e, w.Refuses h k k.element.layout p.count.toNat e ∧ w.construct h k p = (.error e, w)) ∨
      ∃ v, w.construct h k p = (.ok w.owners.size, v) ∧ w.IsBuilt h (.plain k p) v ∧
        v.pending = w.pending ∧ v.unwinding = w.unwinding := by
  have hstop : p.stop? = none := by rw [Plan.stop?, hp, Option.filter_none]
  cases hl : k.element.layout.array p.count.toNat with
  | none =>
    refine .inl ⟨_, refuses_of_overflow hl, ?_⟩
    simp only [construct_eq, Kind.layout, hl]
  | some payload =>
    cases ha : w.allocate h payload (k.recorded p.count.toNat) with
    | error e =>
      refine .inl ⟨e, refuses_of_allocate hl ha, ?_⟩
      simp only [construct_eq, Kind.layout, hl, ha]
    | ok granted =>
      obtain ⟨b, u⟩ := granted
      obtain ⟨arena, -, hu⟩ := allocate_eq_ok ha
      have hnew : (u.newRecord h k p b).IsNew h k p.all :=
        ⟨rfl, rfl, rfl, rfl, rfl, rfl, rfl, rfl, rfl⟩
      refine .inr ⟨{ u with
        records := w.records.push (u.newRecord h k p b)
        owners := w.owners.push (some w.records.size) }, ?_, ⟨⟨_, rfl, hnew⟩, ?_, ?_⟩, ?_, ?_⟩
      · simp only [construct_eq, Kind.layout, hl, ha, hstop]
        rw [hu]
        rfl
      all_goals
        rw [hu]
        rfl

theorem Reachable.run_construct {k : Kind} {h : HeapId} {e : Except HeapRefusal Nat}
    (hw : w.Reachable) (hv : w.construct h k p = (e, v)) : v.Reachable := by
  have hstep := hw.reaches (.once (.construct h k p))
  rwa [Action.run, hv] at hstep

theorem hands_leave (x : Value) (h : v.hands = w.hands) :
    (x.leave v).hands = (x.leave w).hands := by
  cases x with
  | plain k p => exact h
  | node m n f i q =>
    simp only [World.hands, Prod.mk.injEq] at h
    obtain ⟨ho, hs, hc, hk, hb⟩ := h
    cases q <;> simp only [Value.leave, World.hands, vacate, setSoft, setOwner, ho, hs, hc, hk, hb]

theorem items_congr (hx : x.IsAtHand w o)
    (ho : ∀ i < w.owners.size, o ≠ .owner i → v.owner i = w.owner i) (hs : v.soft? = w.soft?) :
    x.items v = x.items w := by
  cases x with
  | plain k p => rfl
  | node m n f i q => rw [Value.items, Value.items, ho i hx.next hx.apart, soft, soft, hs]

/-- A new variable is none of those in which the handles of a value are. -/
theorem isAtHand_push (hx : x.IsAtHand w o) (ho : v.owners = w.owners.push (some r))
    (hs : v.soft? = w.soft?) (hg : v.guards = w.guards) : x.IsAtHand v (.owner w.owners.size) := by
  cases x with
  | plain k p => exact hx
  | node m n f i q =>
    have hi := hx.next
    exact
      { next := by rw [ho, Array.size_push]; exact Nat.lt_succ_of_lt hi
        prev := hs ▸ hx.prev
        loose := hx.loose
        nextFree := by rw [isLent, hg]; exact hx.nextFree
        prevFree := by rw [isLent, hg]; exact hx.prevFree
        apart := fun h => (Nat.ne_of_lt hi) (OwnerPlace.owner.inj h).symm }

variable {h : HeapId} {i : Nat}

theorem IsBuilt.size_owners (hz : u.IsBuilt h x z) : z.owners.size = u.owners.size + 1 := by
  have hsize :
      z.owners.size =
        (x.leave { u with owners := u.owners.push (some u.records.size) }).owners.size :=
    congrArg (fun h => h.1.size) hz.hands
  rw [hsize, size_owners_leave, Array.size_push]

/-- The new variable holds the new object. -/
theorem IsBuilt.owner?_new (hz : u.IsBuilt h x z) (hx : x.IsAtHand u o) :
    z.owner? u.owners.size = some (some u.records.size) := by
  have hpushed :=
    isAtHand_push hx (v := { u with owners := u.owners.push (some u.records.size) }) rfl rfl rfl
  rw [owner?_congr hz.hands, owner?_leave hpushed, owner?, Array.getElem?_push_size]

/-- The owner that is to hold the value is as it was. -/
theorem IsBuilt.owner_old (hz : u.IsBuilt h x z) (hx : x.IsAtHand u (.owner i))
    (hi : i < u.owners.size) : z.owner i = u.owner i := by
  have hpushed : x.IsAtHand { u with owners := u.owners.push (some u.records.size) } (.owner i) :=
    hx.congr (by simp) rfl rfl
  rw [owner_congr hz.hands, owner_leave hpushed, owner, owner, owner?, owner?,
    Array.getElem?_push_lt hi, Array.getElem?_eq_getElem hi]

theorem IsBuilt.object?_old (hz : u.IsBuilt h x z) (hr : r < u.records.size) :
    z.object? r = u.object? r := by
  obtain ⟨rec, hrecords, -⟩ := hz.record
  rw [object?, object?, hrecords, Array.getElem?_push, if_neg (Nat.ne_of_lt hr)]

end World

namespace Op

open World

variable {u : World} {o : OwnerPlace} {x : Value} {h : HeapId}

/-- A value comes into a new object, or it is destroyed. -/
theorem run_place_cases (hu : u.Reachable) (hc : u.IsCalm) (hx : x.IsAtHand u o) (ht : x.IsTame u) :
    (∃ e, u.Refuses h x.kind x.kind.element.layout x.plan.count.toNat e ∧
      (place h x).run.run u = (.error (.refused (.heap e)), x.destroyedIn u)) ∨
      ∃ v, (place h x).run.run u = (.ok u.owners.size, v) ∧ u.IsBuilt h x v := by
  obtain ⟨e, hrefuses, hrun⟩ | ⟨z, hrun, hz, hpending, hunwinding⟩ :=
    construct_cases u h x.kind (x.stop_plan hx)
  · exact .inl ⟨e, hrefuses, run_place_of_error hrun hc hx ht⟩
  · obtain ⟨new, hrecords, hnew⟩ := hz.record
    have hsound : z.Sound := (hu.run_construct hrun).sound
    have howners : z.owners = u.owners.push (some u.records.size) := congrArg Prod.fst hz.hands
    have hsoft : z.soft? = u.soft? := (soft?_congr hz.hands).trans rfl
    have hself : z.records[u.records.size]? = some new := by rw [hrecords, Array.getElem?_push_size]
    have howner : z.owner u.owners.size = some u.records.size := by
      rw [owner, owner?, howners, Array.getElem?_push_size, Option.getD_some]
    obtain ⟨v, hfurnish, hhands, hguards, hreplaces⟩ := run_furnish hsound
      ⟨hpending.trans hc.pending, hunwinding.trans hc.unwinding⟩ howner hself hnew.isAlive hnew.free
      hnew.object (isAtHand_push hx howners hsoft hz.guards)
    have hitems : x.items z = x.items u := items_congr hx (fun i hi _ => by
      rw [owner, owner?, howners, Array.getElem?_push_lt hi, owner, owner?,
        Array.getElem?_eq_getElem hi])
      hsoft
    refine .inr ⟨v, run_place_of_ok hrun hfurnish, ?_⟩
    refine
      { record := ⟨{ new with object := some (x.items z) }, ?_, ?_⟩
        hands := hhands.trans (hands_leave x hz.hands)
        guards := hguards.trans hz.guards }
    · refine Array.ext_getElem? fun q => ?_
      rw [hreplaces q, hrecords, Array.getElem?_push, Array.getElem?_push]
      by_cases hq : q = u.records.size
      · rw [if_pos hq.symm, if_pos hq]
      · rw [if_neg (Ne.symm hq), if_neg hq, if_neg hq]
    · exact { hnew with object := congrArg _ hitems }

end Op

end Custody

import Custody.Proofs.Refusals
import Custody.Proofs.Validity

/-! Worlds that differ in tracking only. The twin of a world has the same allocations,
none of them tracked. What an object holds, who borrows it and how many handles refer to it
is the same in both; tickets, slots, kept blocks and what is counted of them are not. -/

namespace Custody

/-! ### What is left without tracking -/

def Kind.untracked (k : Kind) : Kind := { k with mode := .untracked }

def Watch.untracked (k : Watch) : Watch := { k with ticket := none }

def Item.untracked : Item → Item
  | .node v f next prev => .node v f next (prev.map Watch.untracked)
  | i => i

def Scan.untracked (s : Scan) : Scan := { s with array := s.array.map Watch.untracked }

def Walk.untracked (k : Walk) : Walk := ⟨k.node.map Watch.untracked, k.buckets.untracked⟩

def Task.untracked : Task → Task
  | .dropSoft s => .dropSoft (s.map Watch.untracked)
  | .dropItem i => .dropItem i.untracked
  | t => t

/-- A block without its bytes; an object that was destroyed leaves its tickets there. -/
def Block.blank (b : Block) : Block := { b with contents := .unknown }

/-- A heap without what it keeps and without what it counts of that and of observers. -/
def Heap.untracked (h : Heap) : Heap :=
  { config := h.config
    quarantine := .empty false
    stats :=
      { h.stats with
        keptBlocks := 0
        keptBytes := 0
        reclaimed := 0
        registrations := 0
        invalidations := 0 } }

/-- `b` is the record of an untracked allocation, otherwise like `a`. -/
structure Record.Twin (a b : Record) : Prop where
  heap : b.heap = a.heap
  kind : b.kind = a.kind.untracked
  length : b.length = a.length
  block : b.block.map Block.blank = a.block.map Block.blank
  borrow : b.borrow = a.borrow
  object : b.object.map (List.map Item.untracked) = a.object.map (List.map Item.untracked)
  orphaned : b.orphaned = a.orphaned
  handles : b.handles = a.handles

/-- `v` is like `w`, with nothing in it tracked. -/
structure World.Twin (w v : World) : Prop where
  arena : v.arena = w.arena
  heaps : v.heaps.map Heap.untracked = w.heaps.map Heap.untracked
  size : v.records.size = w.records.size
  records : ∀ r : RecordId, Option.Rel Record.Twin w.records[r]? v.records[r]?
  owners : v.owners = w.owners
  softs : v.softs.map (Option.map Watch.untracked) = w.softs.map (Option.map Watch.untracked)
  scans : v.scans.map Scan.untracked = w.scans.map Scan.untracked
  walks : v.walks.map Walk.untracked = w.walks.map Walk.untracked
  guards : v.guards = w.guards
  nextGuard : v.nextGuard = w.nextGuard
  blocks : v.blocks = w.blocks
  pending : v.pending.map Task.untracked = w.pending.map Task.untracked
  unwinding : v.unwinding = w.unwinding
  log : v.log = w.log

theorem World.twin_start (grant : Nat) : (start grant).Twin (start grant) :=
  ⟨rfl, rfl, rfl, fun _ => .none, rfl, rfl, rfl, rfl, rfl, rfl, rfl, rfl, rfl, rfl⟩

/-! ### Values that are equal but for tracking -/

section Values

variable {α β : Type} {f : α → β}

theorem eq_none_or_eq_some_of_map {a b : Option α} (h : b.map f = a.map f) :
    (a = none ∧ b = none) ∨ ∃ x y, a = some x ∧ b = some y ∧ f y = f x := by
  cases a with
  | none => exact .inl ⟨rfl, by simpa using h⟩
  | some x =>
    obtain ⟨y, rfl, hy⟩ := Option.map_eq_some_iff.mp (h.trans (Option.map_some ..))
    exact .inr ⟨x, y, rfl, rfl, hy⟩

theorem eq_error_or_eq_ok_of_map {ε : Type} {a b : Except ε α} (h : b.map f = a.map f) :
    (∃ e, a = .error e ∧ b = .error e) ∨ ∃ x y, a = .ok x ∧ b = .ok y ∧ f y = f x := by
  cases a <;> cases b
  · cases h
    exact .inl ⟨_, rfl, rfl⟩
  · cases h
  · cases h
  · exact .inr ⟨_, _, rfl, rfl, Except.ok.inj h⟩

theorem map_getElem? {xs ys : Array α} (h : ys.map f = xs.map f) (i : Nat) :
    ys[i]?.map f = xs[i]?.map f := by
  rw [← Array.getElem?_map, ← Array.getElem?_map, h]

theorem size_eq_of_map {xs ys : Array α} (h : ys.map f = xs.map f) : ys.size = xs.size := by
  simpa using congrArg Array.size h

theorem map_modify_eq {xs ys : Array α} {g k : α → α} (h : ys.map f = xs.map f)
    (hg : ∀ x y, f y = f x → f (k y) = f (g x)) (i : Nat) :
    (ys.modify i k).map f = (xs.modify i g).map f := by
  refine Array.ext_getElem? fun j => ?_
  rw [Array.getElem?_map, Array.getElem?_map, Array.getElem?_modify, Array.getElem?_modify]
  have hj := map_getElem? h j
  split_ifs
  · obtain ⟨hx, hy⟩ | ⟨x, y, hx, hy, hxy⟩ := eq_none_or_eq_some_of_map hj
    · rw [hx, hy]
      rfl
    · rw [hx, hy]
      exact congrArg some (hg x y hxy)
  · exact hj

theorem map_modify_self {g : α → α} (hg : ∀ x, f (g x) = f x) (xs : Array α) (i : Nat) :
    (xs.modify i g).map f = xs.map f := by
  refine Array.ext_getElem? fun j => ?_
  rw [Array.getElem?_map, Array.getElem?_map, Array.getElem?_modify]
  split_ifs
  · rw [Option.map_map, show f ∘ g = f from funext hg]
  · rfl

theorem map_set_eq {xs ys : Array α} {x y : α} (h : ys.map f = xs.map f) (hx : f y = f x)
    (i : Nat) : (ys.setIfInBounds i y).map f = (xs.setIfInBounds i x).map f := by
  rw [Array.map_setIfInBounds, Array.map_setIfInBounds, h, hx]

theorem map_push_eq {xs ys : Array α} {x y : α} (h : ys.map f = xs.map f) (hx : f y = f x) :
    (ys.push y).map f = (xs.push x).map f := by
  rw [Array.map_push, Array.map_push, h, hx]

/-- Handles that are equal but for their tickets watch the same. -/
theorem target_eq {s t : Soft} (h : t.map Watch.untracked = s.map Watch.untracked) :
    t.map Watch.record = s.map Watch.record := by
  obtain ⟨rfl, rfl⟩ | ⟨x, y, rfl, rfl, hxy⟩ := eq_none_or_eq_some_of_map h
  · rfl
  · exact congrArg some (congrArg Watch.record hxy :)

theorem isNone_eq {s t : Soft} (h : t.map Watch.untracked = s.map Watch.untracked) :
    t.isNone = s.isNone := by
  simpa using congrArg Option.isNone h

theorem Scan.position_eq {s t : Scan} (h : t.untracked = s.untracked) : t.position = s.position :=
  (congrArg Scan.position h :)

theorem Walk.buckets_eq {j k : Walk} (h : j.untracked = k.untracked) :
    j.buckets.untracked = k.buckets.untracked := (congrArg Walk.buckets h :)

theorem length_eq {xs ys : List Item} (h : ys.map Item.untracked = xs.map Item.untracked) :
    ys.length = xs.length := by
  simpa using congrArg List.length h

variable {i j : Item}

theorem link_eq (h : j.untracked = i.untracked) : j.link = i.link := by
  cases i <;> cases j <;> simp_all [Item.untracked, Item.link]

theorem hasLink_eq (h : j.untracked = i.untracked) : j.hasLink = i.hasLink := by
  cases i <;> cases j <;> simp_all [Item.untracked, Item.hasLink]

theorem hasBack_eq (h : j.untracked = i.untracked) : j.hasBack = i.hasBack := by
  cases i <;> cases j <;> simp_all [Item.untracked, Item.hasBack]

theorem back_eq (h : j.untracked = i.untracked) :
    j.back.map Watch.untracked = i.back.map Watch.untracked := by
  cases i <;> cases j <;> simp_all [Item.untracked, Item.back]

theorem value_eq (h : j.untracked = i.untracked) : j.value = i.value := by
  cases i <;> cases j <;> simp_all [Item.untracked, Item.value]

theorem untracked_withLink (h : j.untracked = i.untracked) (o : Owner) :
    (j.withLink o).untracked = (i.withLink o).untracked := by
  cases i <;> cases j <;> simp_all [Item.untracked, Item.withLink]

theorem untracked_withBack {s t : Soft} (h : j.untracked = i.untracked)
    (hs : t.map Watch.untracked = s.map Watch.untracked) :
    (j.withBack t).untracked = (i.withBack s).untracked := by
  cases i <;> cases j <;> simp_all [Item.untracked, Item.withBack]

theorem untracked_set (h : j.untracked = i.untracked) (x : Int) :
    (j.set x).untracked = (i.set x).untracked := by
  cases i <;> cases j <;> simp_all [Item.untracked, Item.set]

end Values

/-! ### Records -/

namespace Record.Twin

variable {a b : Record}

theorem isSome_object (h : a.Twin b) : b.object.isSome = a.object.isSome := by
  simpa using congrArg Option.isSome h.object

theorem isAlive (h : a.Twin b) : b.isAlive = a.isAlive := by
  rw [Record.isAlive, Record.isAlive, h.orphaned, h.isSome_object]

theorem payload (h : a.Twin b) : b.block.map Block.payload = a.block.map Block.payload := by
  have hp (c : Option Block) : c.map Block.payload = (c.map Block.blank).map Block.payload := by
    cases c <;> rfl
  rw [hp, h.block, ← hp]

theorem address? (h : a.Twin b) : b.address? = a.address? := by
  rw [Record.address?, Record.address?, h.isSome_object, h.payload]

theorem contains (h : a.Twin b) (n : Nat) : b.contains n = a.contains n := by
  obtain ⟨ha, hb⟩ | ⟨x, y, ha, hb, hxy⟩ := eq_none_or_eq_some_of_map h.block
  · rw [Record.contains, Record.contains, ha, hb]
  · rw [Record.contains, Record.contains, ha, hb]
    exact (congrArg (Block.contains · n) hxy :)

theorem alive (h : a.Twin b) :
    b.alive.map (List.map Item.untracked) = a.alive.map (List.map Item.untracked) := by
  rw [Record.alive, Record.alive, h.orphaned]
  split_ifs
  · rfl
  · obtain ⟨ha, hb⟩ | ⟨x, y, ha, hb, hxy⟩ := eq_none_or_eq_some_of_map h.object
    · rw [ha, hb]
    · rw [ha, hb]
      exact congrArg Except.ok hxy

theorem open? (h : a.Twin b) (access : Access) :
    (b.open? access).map (List.map Item.untracked) =
      (a.open? access).map (List.map Item.untracked) := by
  rw [Record.open?, Record.open?, h.borrow]
  obtain ⟨e, ha, hb⟩ | ⟨xs, ys, ha, hb, hxy⟩ := eq_error_or_eq_ok_of_map h.alive
  · rw [ha, hb]
  · rw [ha, hb]
    cases a.borrow.take access with
    | error e => rfl
    | ok _ => exact congrArg Except.ok hxy

/-- A record of an untracked allocation has room for every observer. -/
theorem nextTicket (h : a.Twin b) : b.nextTicket = .ok none := by
  rw [Record.nextTicket, h.kind]
  rfl

end Record.Twin

end Custody

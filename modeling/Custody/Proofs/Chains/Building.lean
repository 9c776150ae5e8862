import Custody.Proofs.Chains.Cascade
import Custody.Proofs.Chains.Steps
import Custody.Proofs.Values

/-! A chain is built from its last node on. Each new node gets a handle that watches it, which
goes to the node that was the head so far, and then takes the variable that owned that one.
Main results: `Op.run_prepend`, what one node more changes, and `Op.run_newChain`. -/

namespace Custody

/-! ### Heaps -/

/-- Heap `new` is `heap` after `n` blocks were granted, each with an observer of its object. -/
structure Heap.Supplied (heap : Heap) (n : Nat) (new : Heap) : Prop where
  config : new.config = heap.config
  quarantine : new.quarantine = heap.quarantine
  allocations : new.stats.allocations = heap.stats.allocations + n
  deallocations : new.stats.deallocations = heap.stats.deallocations
  liveBlocks : new.stats.liveBlocks = heap.stats.liveBlocks + n
  keptBlocks : new.stats.keptBlocks = heap.stats.keptBlocks
  registrations : new.stats.registrations = heap.stats.registrations + n
  invalidations : new.stats.invalidations = heap.stats.invalidations

namespace Heap

theorem Supplied.refl (heap : Heap) : heap.Supplied 0 heap :=
  ⟨rfl, rfl, rfl, rfl, rfl, rfl, rfl, rfl⟩

theorem Supplied.trans {a b c : Heap} {m n : Nat} (h : a.Supplied m b) (h' : b.Supplied n c) :
    a.Supplied (m + n) c where
  config := h'.config.trans h.config
  quarantine := h'.quarantine.trans h.quarantine
  allocations := by rw [h'.allocations, h.allocations, Nat.add_assoc]
  deallocations := h'.deallocations.trans h.deallocations
  liveBlocks := by rw [h'.liveBlocks, h.liveBlocks, Nat.add_assoc]
  keptBlocks := h'.keptBlocks.trans h.keptBlocks
  registrations := by rw [h'.registrations, h.registrations, Nat.add_assoc]
  invalidations := h'.invalidations.trans h.invalidations

theorem supplied_once (heap : Heap) (b : Block) :
    heap.Supplied 1 (heap.noteAllocated b).noteRegistered :=
  ⟨rfl, rfl, rfl, rfl, rfl, rfl, rfl, rfl⟩

end Heap

/-! ### A new node -/

/-- The ticket of the first observer of an object. -/
def firstTicket : Ticket := ⟨0, 0⟩

/-- There is room for one more observer. -/
def Record.HasRoom (rec : Record) : Prop := ∃ t, rec.nextTicket = .ok (some t)

/-- The record of a node that owns nothing and observes nothing. Nobody borrows it, one handle is
registered, and there is room for another, also when that one has gone. -/
structure Record.IsPlanted (rec : Record) (h : HeapId) (n : Nat) : Prop where
  node : rec.IsNode h n none none
  free : rec.borrow = .none
  registered : rec.slots.isLive firstTicket = true
  room : rec.HasRoom
  roomAfter : (rec.deregister (some firstTicket)).left.HasRoom

namespace World

variable {u v w : World} {h : HeapId} {n i : Nat} {o : Owner} {q r : RecordId} {rs : List RecordId}
  {rec : Record} {x : Item}

/-- The plan of node number `n`. -/
def nodePlan (n : Nat) : Plan := .single (.node (Int64.ofNat n) .plain)

/-- The size of the block of a node. -/
def nodeBytes : Nat := 96

theorem around_node : Block.around ⟨48, 8⟩ = some (⟨nodeBytes, 8⟩, 48) := by decide

/-- The block of a node is granted. -/
theorem allocate_node {a : Arena} (hg : nodeBytes ≤ a.grant) :
    ∃ b arena, a.allocate ⟨48, 8⟩ 1 = .ok (b, arena) ∧ arena.grant = a.grant := by
  have hplace : a.place ⟨nodeBytes, 8⟩ = some (roundUp a.next 8,
      { a with next := roundUp a.next 8 + nodeBytes + Arena.gap }) := if_neg (Nat.not_lt.mpr hg)
  simp only [Arena.allocate, around_node, hplace]
  exact ⟨_, _, rfl, rfl⟩

/-- The world with a new node and its owner. -/
def planted (w : World) (h : HeapId) (arena : Arena) (b : Block) (rec : Record) : World :=
  { w with
    arena := arena
    heaps := w.heaps.modify h (·.noteAllocated b)
    records := w.records.push rec
    owners := w.owners.push (some w.records.size) }

theorem construct_node (h : HeapId) (n : Nat) (hg : nodeBytes ≤ w.arena.grant) :
    ∃ arena b rec,
      w.construct h Op.nodeKind (nodePlan n) = (.ok w.owners.size, w.planted h arena b rec) ∧
      arena.grant = w.arena.grant ∧ rec.heap = h ∧ rec.handles ≠ 0 ∧
      rec.nextTicket = .ok (some firstTicket) ∧ rec.enrol.acquire.IsPlanted h n := by
  obtain ⟨b, arena, harena, hgrant⟩ := allocate_node hg
  have hlayout : Op.nodeKind.layout (nodePlan n).count.toNat = some ⟨48, 8⟩ := rfl
  have hone : Op.nodeKind.recorded (nodePlan n).count.toNat = 1 := rfl
  have hstop : (nodePlan n).stop? = none := rfl
  let x := { w with arena := arena }.modifyHeap h (·.noteAllocated b)
  refine ⟨arena, b, x.newRecord h Op.nodeKind (nodePlan n) b, ?_, hgrant, rfl, Nat.one_ne_zero, rfl,
    ⟨⟨rfl, rfl, rfl, rfl⟩, rfl, rfl, ⟨_, rfl⟩, ⟨_, rfl⟩⟩⟩
  simp only [construct_eq, hlayout, hone, allocate, harena, hstop, Except.map]
  rfl

/-- In `v` heap `h` has granted one block more than in `w` and registered an observer. No guard was
made that is still in force, and nothing is pending that was not. -/
structure Stocks (w : World) (h : HeapId) (v : World) : Prop where
  heaps : ∃ b, v.heaps = w.heaps.modify h fun heap => (heap.noteAllocated b).noteRegistered
  grant : v.arena.grant = w.arena.grant
  guards : v.guards = w.guards
  pending : v.pending = w.pending
  unwinding : v.unwinding = w.unwinding

theorem Stocks.isCalm (hv : w.Stocks h v) (hc : w.IsCalm) : v.IsCalm :=
  ⟨hv.pending.trans hc.pending, hv.unwinding.trans hc.unwinding⟩

theorem Stocks.isLent (hv : w.Stocks h v) (s : Source) : v.isLent s = w.isLent s := by
  rw [World.isLent, hv.guards, ← World.isLent]

/-- Only records and variables differ. -/
structure Edited (w v : World) : Prop where
  heaps : v.heaps = w.heaps
  arena : v.arena = w.arena
  guards : v.guards = w.guards
  pending : v.pending = w.pending
  unwinding : v.unwinding = w.unwinding

theorem Stocks.edited (hv : w.Stocks h v) (hu : v.Edited u) : w.Stocks h u where
  heaps := hu.heaps ▸ hv.heaps
  grant := by rw [hu.arena, hv.grant]
  guards := hu.guards.trans hv.guards
  pending := hu.pending.trans hv.pending
  unwinding := hu.unwinding.trans hv.unwinding

/-- `v` is `w` with a new node in a new variable, and a new handle that watches it. -/
structure Sprouts (w : World) (h : HeapId) (n : Nat) (v : World) : Prop extends w.Stocks h v where
  records : ∃ rec, v.records = w.records.push rec ∧ rec.IsPlanted h n
  owners : v.owners = w.owners.push (some w.records.size)
  softs : v.softs = w.softs.push (some ⟨w.records.size, some firstTicket⟩)

/-- What was owned is owned still. -/
theorem Sprouts.owner (hv : w.Sprouts h n v) (hi : w.owner? i = some o) : v.owner i = o := by
  rw [World.owner, owner?, hv.owners, getElem?_push_of_some hi, Option.getD_some]

/-- The new handle is not borrowed through. -/
theorem Sprouts.not_isLent (hv : w.Sprouts h n v) (hw : w.Reachable) :
    v.isLent (.soft (.soft w.softs.size)) = false :=
  (hv.isLent _).trans (hw.tended.not_isLent (by simp [soft?]))

theorem run_sprout (h : HeapId) (n : Nat) (hg : nodeBytes ≤ w.arena.grant) :
    ∃ u v,
      (Op.inManner .insist (Op.build h Op.nodeKind (nodePlan n))).run.run w =
        (.ok w.owners.size, u) ∧
      u.owner w.owners.size = some w.records.size ∧
      (Op.inManner .insist (Op.watch (some w.records.size))).run.run u = (.ok w.softs.size, v) ∧
      w.Sprouts h n v := by
  obtain ⟨arena, b, rec, hconstruct, hgrant, hheap, hhandles, hticket, hnew⟩ :=
    construct_node h n hg
  have hplace : (Op.build h Op.nodeKind (nodePlan n)).run.run w =
      (.ok w.owners.size, w.planted h arena b rec) :=
    Op.run_place_of_ok (x := .plain Op.nodeKind (nodePlan n)) hconstruct rfl
  have hbuild := Op.run_insist_of_ok hplace
  have hself : (w.planted h arena b rec).records[w.records.size]? = some rec := by simp [planted]
  have hwatch := Op.run_watch_of_nextTicket hself hhandles hticket
  refine ⟨_, _, hbuild, by simp [planted, owner, owner?], hwatch, ⟨⟨b, ?_⟩, hgrant, rfl, rfl, rfl⟩,
    ⟨rec.enrol.acquire, ?_, hnew⟩, rfl, rfl⟩
  · show (w.heaps.modify h _).modify rec.heap _ = _
    rw [hheap, modify_modify]
  · show (w.records.push rec).modify w.records.size (fun rec => rec.enrol.acquire) = _
    exact modify_push_size _

/-! ### In front of a chain -/

/-- `v` is `w` with a new node in front of what `o` owns; so far it owns `next`. -/
structure Fronts (w : World) (h : HeapId) (n : Nat) (o next : Owner) (v : World) : Prop
    extends w.Stocks h v where
  self : ∃ rec, v.records[w.records.size]? = some rec ∧ rec.IsNode h n next none ∧
    rec.borrow = .none ∧ rec.HasRoom ∧ (o ≠ none → rec.slots.isLive firstTicket = true)
  /-- The node that was the head observes the new one. -/
  head : ∀ q rec x, o = some q → w.records[q]? = some rec → rec.object = some [x] →
    v.records[q]? = some { rec with
      object := some [x.withBack (some ⟨w.records.size, some firstTicket⟩)] }
  others : ∀ q < w.records.size, o ≠ some q → v.records[q]? = w.records[q]?

/-- In front of nothing, the handle on the new node is let go. -/
theorem Sprouts.letGo (hv : w.Sprouts h n v) :
    w.Fronts h n none none
      ((v.vacate (.soft w.softs.size)).letGo (some ⟨w.records.size, some firstTicket⟩)) := by
  obtain ⟨rec, hrecords, hnew⟩ := hv.records
  obtain ⟨u, hu⟩ :
      ∃ u, u = (v.vacate (.soft w.softs.size)).letGo
        (some ⟨w.records.size, some firstTicket⟩) := ⟨_, rfl⟩
  have hself : u.records = w.records.push (rec.deregister (some firstTicket)).left := by
    rw [hu]
    show (v.records.modify w.records.size _).modify w.records.size _ = _
    rw [hrecords, modify_push_size, modify_push_size]
  rw [← hu]
  refine ⟨hv.toStocks.edited (by rw [hu]; exact ⟨rfl, rfl, rfl, rfl, rfl⟩),
    ⟨(rec.deregister (some firstTicket)).left, by rw [hself, Array.getElem?_push_size], ?_,
      hnew.free, hnew.roomAfter, by simp⟩, by simp, fun q hq _ => ?_⟩
  · exact ⟨hnew.node.heap, hnew.node.kind, hnew.node.orphaned, hnew.node.object⟩
  · rw [hself, Array.getElem?_push_lt hq, Array.getElem?_eq_getElem hq]

/-- The handle on the new node goes to the node behind it. -/
theorem Sprouts.exchanged (hv : w.Sprouts h n v) (hq : w.records[q]? = some rec)
    (ho : rec.object = some [x])
    (hu : u.records = v.records.modify q fun rec =>
      { rec with object := some [x.withBack (some ⟨w.records.size, some firstTicket⟩)] })
    (hrest : v.Edited u) : w.Fronts h n (some q) none u := by
  obtain ⟨new, hrecords, hnew⟩ := hv.records
  have hlt := (Array.getElem?_eq_some_iff.mp hq).1
  have hkept {j : RecordId} (hj : q ≠ j) : u.records[j]? = (w.records.push new)[j]? := by
    rw [hu, hrecords, Array.getElem?_modify, if_neg hj]
  refine ⟨hv.toStocks.edited hrest,
    ⟨new, ?_, hnew.node, hnew.free, hnew.room, fun _ => hnew.registered⟩, ?_, fun j hj hne => ?_⟩
  · rw [hkept (Nat.ne_of_lt hlt), Array.getElem?_push_size]
  · rintro j old y hj hold hobject
    obtain rfl := Option.some.inj hj
    obtain rfl := Option.some.inj (hq.symm.trans hold)
    obtain rfl : x = y := by simpa [ho] using hobject
    rw [hu, hrecords, Array.getElem?_modify, if_pos rfl, getElem?_push_of_some hold,
      Option.map_some]
  · rw [hkept (by simpa using hne), Array.getElem?_push_lt hj, ← Array.getElem?_eq_getElem hj]

/-- The new node takes what `o` owns. -/
theorem Fronts.given (hv : w.Fronts h n o none v)
    (hu : u.records = v.records.modify w.records.size fun rec =>
      { rec with object := some [.node (Int64.ofNat n) .plain o none] })
    (hrest : v.Edited u) : w.Fronts h n o o u := by
  obtain ⟨rec, hself, hnode, hfree, hroom, hlive⟩ := hv.self
  have hkept {j : RecordId} (hj : j < w.records.size) : u.records[j]? = v.records[j]? := by
    rw [hu, Array.getElem?_modify, if_neg (Nat.ne_of_gt hj)]
  refine ⟨hv.toStocks.edited hrest,
    ⟨{ rec with object := some [.node (Int64.ofNat n) .plain o none] }, ?_, ?_, hfree,
      hroom, hlive⟩,
    fun q old y hq hold hy => ?_, fun q hq hne => ?_⟩
  · rw [hu, Array.getElem?_modify, if_pos rfl, hself, Option.map_some]
  · exact ⟨hnode.heap, hnode.kind, hnode.orphaned, rfl⟩
  · rw [hkept (Array.getElem?_eq_some_iff.mp hold).1]
    exact hv.head q old y hq hold hy
  · rw [hkept hq]
    exact hv.others q hq hne

/-- Nobody borrows the object of a record, and there is room for an observer. -/
def IsIdle (w : World) (r : RecordId) : Prop :=
  ∃ rec, w.records[r]? = some rec ∧ rec.borrow = .none ∧ rec.HasRoom

theorem IsIdle.congr (hw : w.IsIdle r) (hr : v.records[r]? = w.records[r]?) : v.IsIdle r := by
  obtain ⟨rec, hrec, hidle⟩ := hw
  exact ⟨rec, hr.trans hrec, hidle⟩

/-- Variable `i` owns the chain in `rs`, whose nodes are numbered from `n` on and used by nobody. -/
structure Chained (w : World) (h : HeapId) (n i : Nat) (rs : List RecordId) : Prop where
  linked : w.Linked h n none rs
  owner : w.owner? i = some rs.head?
  free : w.isLent (.owner i) = false
  idle : ∀ r ∈ rs, w.IsIdle r

theorem Chained.head (hl : w.Chained h n i rs) (hq : rs.head? = some q) :
    ∃ rec m next, w.records[q]? = some rec ∧ rec.IsNode h m next none ∧ rec.borrow = .none := by
  cases rs with
  | nil => cases hq
  | cons r rs =>
    obtain rfl := Option.some.inj hq
    obtain ⟨⟨rec, hrec, hnode⟩, -⟩ := hl.linked
    obtain ⟨rec', hrec', hfree, -⟩ := hl.idle r List.mem_cons_self
    obtain rfl := Option.some.inj (hrec.symm.trans hrec')
    exact ⟨rec, n, _, hrec, hnode, hfree⟩

theorem Linked.lt_size {prev : Soft} (hl : w.Linked h n prev rs) (hr : r ∈ rs) :
    r < w.records.size := by
  obtain ⟨rec, -, -, -, hrec, -⟩ := hl.node hr
  exact (Array.getElem?_eq_some_iff.mp hrec).1

theorem isValid_of_record {k : Watch} (hr : w.records[k.record]? = some rec) :
    w.isValid (some k) = (rec.vouches k.ticket && rec.isAlive) := by
  cases hv : rec.vouches k.ticket <;> cases ha : rec.isAlive <;>
    simp [isValid, watched, hr, hv, ha, Except.isOk, Except.toBool]

/-- The chain with the new node in front. -/
theorem Fronts.linked (hv : w.Fronts h n rs.head? rs.head? v) (hl : w.Linked h (n + 1) none rs) :
    v.Linked h n none (w.records.size :: rs) := by
  obtain ⟨rec, hself, hnode, -, -, hlive⟩ := hv.self
  refine ⟨⟨rec, hself, hnode⟩, fun hmem => Nat.lt_irrefl _ (hl.lt_size hmem), firstTicket,
    fun hne => ?_, ?_⟩
  · rw [isValid_of_record hself, hnode.isAlive, Bool.and_true]
    exact hlive (by simpa using hne)
  · cases rs with
    | nil => trivial
    | cons q rs =>
      obtain ⟨⟨old, hq, hold⟩, hout, t, hvalid, hrest⟩ := hl
      have hnew := hv.head q old _ rfl hq hold.object
      have hkept (j : RecordId) (hj : j ∈ rs) : v.records[j]? = w.records[j]? :=
        hv.others j (hrest.lt_size hj) fun he => hout (Option.some.inj he ▸ hj)
      refine ⟨⟨_, hnew, hold.heap, hold.kind, hold.orphaned, rfl⟩, hout, t, fun hne => ?_,
        hrest.congr hkept⟩
      have hvouches := hvalid hne
      rw [isValid_of_record hq, hold.isAlive, Bool.and_true] at hvouches
      rw [isValid_of_record hnew, Bool.and_eq_true]
      exact ⟨hvouches, by simp [Record.isAlive, hold.orphaned]⟩

theorem Fronts.idle (hv : w.Fronts h n rs.head? rs.head? v) (hl : w.Linked h (n + 1) none rs)
    (hi : ∀ r ∈ rs, w.IsIdle r) : ∀ r ∈ w.records.size :: rs, v.IsIdle r := by
  intro r hr
  obtain rfl | hr := List.mem_cons.mp hr
  · obtain ⟨rec, hself, -, hfree, hroom, -⟩ := hv.self
    exact ⟨rec, hself, hfree, hroom⟩
  · obtain ⟨rec, hrec, hfree, hroom⟩ := hi r hr
    obtain ⟨rec', m, next, back, hrec', hnode⟩ := hl.node hr
    obtain rfl := Option.some.inj (hrec.symm.trans hrec')
    by_cases hhead : rs.head? = some r
    · exact ⟨_, hv.head r rec _ hhead hrec hnode.object, hfree, hroom⟩
    · exact (hi r hr).congr (hv.others r (hl.lt_size hr) hhead)

end World

namespace Op

open World

variable {v w : World} {h : HeapId} {n i : Nat} {rs : List RecordId}

/-- The new node takes what variable `i` owns. -/
theorem run_link_of_fronts {o : Owner} (hv : v.Reachable) (hc : v.IsCalm)
    (hf : w.Fronts h n o none v) (howners : v.owners = w.owners.push (some w.records.size))
    (hi : w.owner? i = some o) (hl : w.isLent (.owner i) = false) :
    ∃ x, (link w.owners.size i).run.run v = (.ok (), x) ∧ w.Fronts h n o o x ∧
      x.owner? w.owners.size = some (some w.records.size) := by
  obtain ⟨rec, hself, hnode, hfree, -⟩ := hf.self
  have hlt : i < w.owners.size := (Array.getElem?_eq_some_iff.mp hi).1
  have howner : v.owner w.owners.size = some w.records.size := by simp [owner, owner?, howners]
  have hchild : v.owner? i = some o := by
    rw [owner?, howners]
    exact getElem?_push_of_some hi
  have hrun := run_link hv hc howner hself hnode.isAlive hfree hnode.object rfl rfl hchild
    (Nat.ne_of_lt hlt) ((hf.isLent _).trans hl)
  refine ⟨_, hrun, hf.given rfl ⟨rfl, rfl, rfl, rfl, rfl⟩, ?_⟩
  show ((v.owners.setIfInBounds i none).push none)[w.owners.size]? = _
  rw [howners]
  refine getElem?_push_of_some ?_
  rw [Array.getElem?_setIfInBounds_ne (Nat.ne_of_lt hlt), Array.getElem?_push_size]

/-- Where there is no node behind the new one, its handle goes away. -/
theorem run_untie (hw : w.Reachable) (hv : w.Sprouts h n v) (hvr : v.Reachable) (hvc : v.IsCalm) :
    ∃ x, (dropSoft (.soft w.softs.size)).run.run v = (.ok (), x) ∧ w.Fronts h n none none x ∧
      x.owners = v.owners := by
  obtain ⟨rec, hrecords, hnew⟩ := hv.records
  have hsoft : v.soft (.soft w.softs.size) = some ⟨w.records.size, some firstTicket⟩ := by
    rw [soft, soft?, hv.softs, Array.getElem?_push_size, Option.getD_some]
  have hdrop := run_dropSoft hvr hvc (hv.not_isLent hw) fun k hk => by
    obtain rfl := Option.some.inj (hsoft.symm.trans hk)
    exact isAlive_iff.mpr ⟨rec, by rw [hrecords, Array.getElem?_push_size], hnew.node.isAlive⟩
  rw [hsoft] at hdrop
  exact ⟨_, hdrop, hv.letGo, rfl⟩

/-- The handle on the new node is exchanged with that in the node behind it, which is empty and
goes away. -/
theorem run_tie {q m : Nat} {rec : Record} {next : Owner} (hw : w.Reachable) (hv : w.Sprouts h n v)
    (hvr : v.Reachable) (hvc : v.IsCalm) (hi : w.owner? i = some (some q))
    (hrec : w.records[q]? = some rec) (hq : rec.IsNode h m next none) (hfree : rec.borrow = .none) :
    ∃ u x, (borrowing (.owner i) .exclusive fun g =>
        act (.exchangeBack g 0 (.soft w.softs.size))).run.run v = (.ok (), u) ∧
      (dropSoft (.soft w.softs.size)).run.run u = (.ok (), x) ∧ w.Fronts h n (some q) none x ∧
      x.owners = v.owners := by
  obtain ⟨new, hrecords, hnew⟩ := hv.records
  have hself : v.records[q]? = some rec := by
    rw [hrecords]
    exact getElem?_push_of_some hrec
  have hback : v.softs[w.softs.size]? = some (some ⟨w.records.size, some firstTicket⟩) := by
    rw [hv.softs, Array.getElem?_push_size]
  have hlent := hv.not_isLent hw
  have hexchange :=
    run_exchangeBack hvr.sound hvc (hv.owner hi) hself hq.isAlive hfree hq.object rfl hback hlent
  obtain ⟨u, hu⟩ : ∃ u : World, u = { v with
      records := v.records.modify q fun rec => { rec with
        object := some
          [.node (Int64.ofNat m) .plain next (some ⟨w.records.size, some firstTicket⟩)] }
      softs := v.softs.setIfInBounds w.softs.size none
      nextGuard := v.nextGuard + 1 } := ⟨_, rfl⟩
  replace hexchange : (borrowing (.owner i) .exclusive fun g =>
      act (.exchangeBack g 0 (.soft w.softs.size))).run.run v = (.ok (), u) := hu ▸ hexchange
  have hempty : u.soft (.soft w.softs.size) = none := by simp [hu, soft, soft?, hv.softs]
  have hdrop := run_dropSoft (p := .soft w.softs.size) (hvr.reaches (reaches_of_run hexchange))
    (by rw [hu]; exact ⟨hvc.pending, hvc.unwinding⟩) (by rw [hu]; exact hlent) (by simp [hempty])
  rw [hempty] at hdrop
  refine ⟨u, _, hexchange, hdrop, hv.exchanged hrec hq.object ?_ ?_, ?_⟩
  · rw [hu]
    rfl
  · rw [hu]
    exact ⟨rfl, rfl, rfl, rfl, rfl⟩
  · rw [hu]
    rfl

/-- A node in front of a chain that nobody uses. -/
theorem run_prepend (hw : w.Reachable) (hc : w.IsCalm) (hg : nodeBytes ≤ w.arena.grant)
    (hl : w.Chained h (n + 1) i rs) :
    ∃ v, (prepend h n i).run.run w = (.ok w.owners.size, v) ∧ w.Stocks h v ∧
      v.Chained h n w.owners.size (w.records.size :: rs) := by
  obtain ⟨u, v, hbuild, howner, hwatch, hv⟩ := run_sprout h n hg
  have hvr : v.Reachable := (hw.reaches (reaches_of_run hbuild)).reaches (reaches_of_run hwatch)
  have hvc := hv.isCalm hc
  -- the new node takes what the variable owns, once it is observed from there
  have hfinish {x : World} (hxr : x.Reachable) (hx : w.Fronts h n rs.head? none x)
      (howners : x.owners = v.owners) : ∃ y, (do
        link w.owners.size i
        return w.owners.size : Op Nat).run.run x = (.ok w.owners.size, y) ∧ w.Stocks h y ∧
        y.Chained h n w.owners.size (w.records.size :: rs) := by
    obtain ⟨y, hlink, hy, hyowner⟩ := run_link_of_fronts hxr (hx.isCalm hc) hx
      (howners.trans hv.owners) hl.owner hl.free
    have hlent :=
      (hy.isLent _).trans (hw.tended.not_isLent_owner (i := w.owners.size) (by simp [owner?]))
    refine ⟨y, ?_, hy.toStocks, hy.linked hl.linked, hyowner, hlent, hy.idle hl.linked hl.idle⟩
    rw [run_bind_of_ok _ hlink]
    rfl
  rw [prepend]
  dsimp only
  rw [show Plan.single (.node (Int64.ofNat n) .plain) = nodePlan n from rfl,
    run_bind_of_ok _ hbuild, run_bind_of_ok _ (run_look _ u), howner, run_bind_of_ok _ hwatch,
    run_bind_of_ok _ (run_look _ v),
    hv.owner hl.owner]
  cases hhead : rs.head? with
  | none =>
    obtain ⟨x, hdrop, hx, howners⟩ := run_untie hw hv hvr hvc
    obtain ⟨y, hrun, hy⟩ := hfinish (hvr.reaches (reaches_of_run hdrop)) (hhead ▸ hx) howners
    rw [Option.isSome_none, if_neg Bool.false_ne_true, run_bind_of_ok _ hdrop]
    exact ⟨y, hrun, hy⟩
  | some q =>
    obtain ⟨rec, m, next, hrec, hq, hfree⟩ := hl.head hhead
    obtain ⟨t, x, htie, hdrop, hx, howners⟩ :=
      run_tie hw hv hvr hvc (hhead ▸ hl.owner) hrec hq hfree
    obtain ⟨y, hrun, hy⟩ :=
      hfinish ((hvr.reaches (reaches_of_run htie)).reaches (reaches_of_run hdrop))
      (hhead ▸ hx) howners
    rw [Option.isSome_some, if_pos rfl, run_bind_of_ok _ htie, run_bind_of_ok _ hdrop]
    exact ⟨y, hrun, hy⟩

/-- The nodes below `n` in front of a chain. -/
theorem run_prependAll (hw : w.Reachable) (hc : w.IsCalm) (hg : nodeBytes ≤ w.arena.grant)
    (hl : w.Chained h n i rs) :
    ∃ j qs v, (prependAll h n i).run.run w = (.ok j, v) ∧ v.IsCalm ∧ qs.length = n ∧
      v.Chained h 0 j (qs ++ rs) ∧
      ∀ heap, w.heaps[h]? = some heap → ∃ new, v.heaps[h]? = some new ∧ heap.Supplied n new := by
  induction n generalizing w i rs with
  | zero => exact ⟨i, [], w, rfl, hc, rfl, hl, fun heap hheap => ⟨heap, hheap, .refl heap⟩⟩
  | succ n ih =>
    obtain ⟨u, hrun, hu, hchained⟩ := run_prepend hw hc hg hl
    obtain ⟨j, qs, v, hrest, hvc, hlength, hv, hheaps⟩ :=
      ih (hw.reaches (reaches_of_run hrun)) (hu.isCalm hc) (by rwa [hu.grant]) hchained
    refine ⟨j, qs ++ [w.records.size], v, ?_, hvc, by simp [hlength], by simpa using hv,
      fun heap hheap => ?_⟩
    · rw [prependAll, run_bind_of_ok _ hrun, hrest]
    · obtain ⟨b, hmodify⟩ := hu.heaps
      have hmid : u.heaps[h]? = some ((heap.noteAllocated b).noteRegistered) := by
        rw [hmodify, Array.getElem?_modify, if_pos rfl, hheap, Option.map_some]
      obtain ⟨new, hnew, hsupplied⟩ := hheaps _ hmid
      exact ⟨new, hnew, by simpa [Nat.add_comm] using (heap.supplied_once b).trans hsupplied⟩

/-- A chain of nodes `0` up to `n - 1` is built. -/
theorem run_newChain (n : Nat) (hw : w.Reachable) (hc : w.IsCalm) (hg : nodeBytes ≤ w.arena.grant) :
    ∃ i rs v, (newChain h n).run.run w = (.ok i, v) ∧ v.IsCalm ∧ rs.length = n ∧
      v.Chained h 0 i rs ∧
      ∀ heap, w.heaps[h]? = some heap → ∃ new, v.heaps[h]? = some new ∧ heap.Supplied n new := by
  have hnew : (ExceptT.lift Act.newOwner : Op Nat).run.run w =
      (.ok w.owners.size, w.newOwner.2) := rfl
  have hfree : w.newOwner.2.isLent (.owner w.owners.size) = false :=
    hw.tended.not_isLent_owner (by simp [owner?])
  have hempty : w.newOwner.2.Chained h n w.owners.size [] :=
    ⟨trivial, by simp [newOwner, owner?], hfree, by simp⟩
  obtain ⟨i, rs, v, hrun, hvc, hlength, hv, hheaps⟩ :=
    run_prependAll (hw.reaches (.once .newOwner)) ⟨hc.pending, hc.unwinding⟩ hg hempty
  refine ⟨i, rs, v, ?_, hvc, hlength, by simpa using hv, hheaps⟩
  rw [newChain, run_bind_of_ok _ hnew]
  exact hrun

end Op

end Custody

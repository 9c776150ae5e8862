import Custody.Proofs.Locality.Batches
import Custody.Proofs.Walks.Handles
import Custody.Workload.Chain
import Mathlib.Data.List.Range

/-! The destruction of a doubly linked chain. Dropping the owner of its head takes the
head's object apart, and with it the owner of the next node, so all nodes are half destroyed
when the last one ends. Each node's handle on the one before it goes before that one's
observers are told: only those that observe the chain from outside are. -/

namespace Custody

/-! ### Heaps -/

/-- Heap `new` is `heap` after `n` blocks came back to be kept and `k` observers were told. -/
structure Heap.Absorbs (heap : Heap) (n k : Nat) (new : Heap) : Prop where
  config : new.config = heap.config
  allocations : new.stats.allocations = heap.stats.allocations
  deallocations : new.stats.deallocations = heap.stats.deallocations + n
  liveBlocks : new.stats.liveBlocks = heap.stats.liveBlocks - n
  keptBlocks : new.stats.keptBlocks = heap.stats.keptBlocks + n
  count : new.quarantine.count = heap.quarantine.count + n
  registrations : new.stats.registrations = heap.stats.registrations
  invalidations : new.stats.invalidations = heap.stats.invalidations + k

theorem Heap.Absorbs.refl (heap : Heap) : heap.Absorbs 0 0 heap :=
  ⟨rfl, rfl, rfl, rfl, rfl, rfl, rfl, rfl⟩

theorem Heap.Absorbs.trans {a b c : Heap} {m n j k : Nat} (h : a.Absorbs m j b)
    (h' : b.Absorbs n k c) : a.Absorbs (m + n) (j + k) c where
  config := h'.config.trans h.config
  allocations := h'.allocations.trans h.allocations
  deallocations := by rw [h'.deallocations, h.deallocations, Nat.add_assoc]
  liveBlocks := by rw [h'.liveBlocks, h.liveBlocks, Nat.sub_sub]
  keptBlocks := by rw [h'.keptBlocks, h.keptBlocks, Nat.add_assoc]
  count := by rw [h'.count, h.count, Nat.add_assoc]
  registrations := h'.registrations.trans h.registrations
  invalidations := by rw [h'.invalidations, h.invalidations, Nat.add_assoc]

/-- The end of one destruction on a heap that keeps blocks. -/
theorem Heap.absorbs_release (heap : Heap) (hk : heap.config.keeps = true) (b : Block) (k : Nat) :
    heap.Absorbs 1 k ((heap.noteInvalidated k).release b true) := by
  have hnew : (heap.noteInvalidated k).release b true = { heap with
      quarantine := heap.quarantine.push ((heap.noteInvalidated k).prepare b)
      stats := (((heap.stats.invalidated k).released b.size).kept b.size) } := if_pos hk
  rw [hnew]
  exact ⟨rfl, rfl, rfl, rfl, rfl, rfl, rfl, rfl⟩

/-! ### Chains -/

/-- A record holds node number `n`: its owner, the heap, and the two handles in it. -/
structure Record.IsNode (rec : Record) (h : HeapId) (n : Nat) (next : Owner)
    (prev : Soft) : Prop where
  heap : rec.heap = h
  kind : rec.kind = Op.nodeKind
  orphaned : rec.orphaned = false
  object : rec.object = some [.node (Int64.ofNat n) .plain next prev]

theorem Record.IsNode.isAlive {rec : Record} {h : HeapId} {n : Nat} {next : Owner} {prev : Soft}
    (hn : rec.IsNode h n next prev) : rec.isAlive = true := by
  simp [Record.isAlive, hn.orphaned, hn.object]

namespace World

variable {u v w : World} {h : HeapId} {n : Nat} {prev : Soft} {r : RecordId} {rs : List RecordId}
  {rec : Record} {b : Block}

/-- Records `rs` hold a chain of different nodes, numbered from `n` on. Each node owns the next
one, which observes it through a handle that is valid; the first one observes what `prev`
says. -/
def Linked (w : World) (h : HeapId) : Nat → Soft → List RecordId → Prop
  | _, _, [] => True
  | n, prev, r :: rs =>
    (∃ rec, w.records[r]? = some rec ∧ rec.IsNode h n rs.head? prev) ∧ r ∉ rs ∧
      ∃ t, (rs ≠ [] → w.isValid (some ⟨r, some t⟩) = true) ∧
        w.Linked h (n + 1) (some ⟨r, some t⟩) rs

/-- A chain is in its records. -/
theorem Linked.congr (hl : w.Linked h n prev rs) (hr : ∀ r ∈ rs, v.records[r]? = w.records[r]?) :
    v.Linked h n prev rs := by
  induction rs generalizing n prev with
  | nil => trivial
  | cons r rs ih =>
    obtain ⟨⟨rec, hrec, hnode⟩, hout, t, hvalid, hrest⟩ := hl
    refine ⟨⟨rec, (hr r List.mem_cons_self).trans hrec, hnode⟩, hout, t, fun hne => ?_,
      ih hrest fun q hq => hr q (List.mem_cons_of_mem r hq)⟩
    exact (isValid_eq_of_record (k := ⟨r, some t⟩) (hr r List.mem_cons_self)).trans (hvalid hne)

theorem Linked.nodup (hl : w.Linked h n prev rs) : rs.Nodup := by
  induction rs generalizing n prev with
  | nil => exact List.nodup_nil
  | cons r rs ih =>
    obtain ⟨-, hout, t, -, hrest⟩ := hl
    exact List.nodup_cons.mpr ⟨hout, ih hrest⟩

/-- What is in a chain is a node that has its owner. -/
theorem Linked.node (hl : w.Linked h n prev rs) (hr : r ∈ rs) :
    ∃ rec m next back, w.records[r]? = some rec ∧ rec.IsNode h m next back := by
  induction rs generalizing n prev with
  | nil => cases hr
  | cons q rs ih =>
    obtain ⟨⟨rec, hq, hnode⟩, -, t, -, hrest⟩ := hl
    obtain rfl | hr := List.mem_cons.mp hr
    · exact ⟨rec, n, _, _, hq, hnode⟩
    · exact ih hrest hr

/-! ### One node -/

theorem records_letGo_of_ne (s : Soft) (hs : ∀ k, s = some k → k.record ≠ r) :
    (w.letGo s).records[r]? = w.records[r]? := by
  cases s with
  | none => rfl
  | some k => simp [letGo, modifyRecord, Array.getElem?_modify, hs k rfl]

theorem object?_letGo (s : Soft) : (w.letGo s).object? = w.object? := by
  cases s with
  | none => rfl
  | some k =>
    rw [letGo, object?_modify (f := Record.left) fun _ => rfl,
      object?_modify (f := fun rec => rec.deregister k.ticket) fun rec =>
        rec.object_deregister k.ticket]

theorem pending_letGo (s : Soft) : (w.letGo s).pending = w.pending := by cases s <;> rfl

/-- A handle whose object is gone already goes away. -/
theorem drain_dropSoft_of_gone (hp : w.pending = []) (s : Soft)
    (hs : ∀ k, s = some k → w.object? k.record = none) :
    (w.schedule [.dropSoft s]).drain = w.letGo s := by
  rw [drain_schedule_cons]
  cases s with
  | none => exact drain_of_idle (w := w) hp
  | some k =>
    obtain ⟨u, hu⟩ : ∃ u, u = w.modifyRecord k.record fun rec => rec.deregister k.ticket := ⟨_, rfl⟩
    have hempty : (u.modifyRecord k.record Record.left).object? k.record = none := by
      rw [hu, ← hs k rfl]
      exact congrFun (object?_letGo (some k)) k.record
    have hforget : u.forget k.record = u.modifyRecord k.record Record.left := by
      have hstay := demolish_of_empty hempty
      show (if _ then (u.modifyRecord k.record Record.left).demolish k.record
        else u.modifyRecord k.record Record.left) = _
      rw [hstay, ite_self]
    show ((w.modifyRecord k.record fun rec => rec.deregister k.ticket).schedule
        [.forget k.record]).drain = _
    rw [← hu, drain_schedule_cons]
    show (u.forget k.record).drain = _
    rw [hforget, letGo, ← hu]
    refine drain_of_idle ?_
    rw [hu]
    exact hp

/-- An owner goes whose object is not borrowed. -/
theorem drain_dropOwner_of_free {items : List Item} (hp : w.pending = [])
    (hr : w.records[r]? = some rec) (ho : rec.object = some items) (hb : w.isBorrowed r = false) :
    (w.schedule [.dropOwner (some r)]).drain =
      ((items.foldl destroy (w.modifyRecord r (empties (Item.image items)))).schedule
        [.retire r, .forget r]).drain := by
  have hstart : (w.schedule []).perform (.dropOwner (some r)) =
      (w.modifyRecord r (empties (Item.image items))).schedule
        (items.map .dropItem ++ [.retire r, .forget r]) := by
    have hfree : ¬ (w.schedule [.forget r]).isBorrowed r = true := by
      show ¬ w.isBorrowed r = true
      simp [hb]
    have hdemolish := demolish_of_object (w := w.schedule [.forget r]) hr ho
    show (if (w.schedule [.forget r]).isBorrowed r = true then _
      else (w.schedule [.forget r]).demolish r) = _
    rw [if_neg hfree, hdemolish]
    simp [schedule, modifyRecord]
  rw [drain_schedule_cons, hstart, drain_schedule_items (by exact hp)]

/-- A node without a finalizer of its own is reported; then what it owns goes, and then its
handle. -/
theorem destroy_plain {value : Int64} {next : Owner} (hp : w.pending = []) :
    w.destroy (.node value .plain next prev) =
      (((w.report [.dropped value]).schedule [.dropOwner next]).drain.schedule
        [.dropSoft prev]).drain := by
  have hstart : (w.schedule []).perform (.dropItem (.node value .plain next prev)) =
      (w.report [.dropped value]).schedule ([.dropOwner next] ++ [.dropSoft prev]) := rfl
  rw [destroy, drain_schedule_cons, hstart, drain_schedule_append (by exact hp)]

/-- The end of a destruction on a tracked allocation: the observers are told and the block goes
back, and the owner is counted no more. -/
theorem drain_retire_of_tracked (hp : w.pending = []) (hr : w.records[r]? = some rec)
    (ho : rec.object = none) (hb : rec.block = some b) (hm : rec.kind.mode.isTracked = true) :
    let v := (w.schedule [.retire r, .forget r]).drain
    (∀ q, v.records[q]? = if r = q then some rec.retired.left else w.records[q]?) ∧
      (∀ q, v.heaps[q]? = if rec.heap = q then
        w.heaps[q]?.map fun heap => (heap.noteInvalidated rec.slots.liveCount).release b true
        else w.heaps[q]?) ∧
      v.log = w.log ∧ v.unwinding = w.unwinding := by
  have hempty : w.object? r = none := by rw [object?_of_record hr, ho]
  have hinvalidate := replaces_invalidate hr
  have hreturn := replaces_returnBlock hinvalidate.self
  have hleft := replaces_modifyRecord hreturn.self Record.left
  have hback : (w.invalidate r).returnBlock r =
      ((w.invalidate r).modifyRecord r fun rec => { rec with block := none }).modifyHeap rec.heap
        (·.release b true) := by
    simp only [returnBlock, hinvalidate.self, hb, hm]
  have htold :
      (w.invalidate r).heaps = w.heaps.modify rec.heap (·.noteInvalidated rec.slots.liveCount) := by
    simp only [invalidate, hr]
    rfl
  dsimp only
  rw [drain_retire hp hempty]
  refine ⟨(hinvalidate.trans hreturn).trans hleft, fun q => ?_, ?_, ?_⟩
  · show ((w.invalidate r).returnBlock r).heaps[q]? = _
    rw [hback]
    show ((w.invalidate r).heaps.modify rec.heap _)[q]? = _
    rw [htold, Array.getElem?_modify, Array.getElem?_modify]
    split_ifs
    · rw [Option.map_map]
      rfl
    · rfl
  · show ((w.invalidate r).returnBlock r).log = _
    rw [hback]
    show (w.invalidate r).log = _
    simp only [invalidate, hr]
    rfl
  · exact (unwinding_returnBlock r).trans (unwinding_invalidate r)

/-! ### The whole chain -/

/-- The reports of the nodes numbered from `n` on, the latest first. -/
def reportsFrom (n m : Nat) : List Event :=
  ((List.range' n m).map fun i => Event.dropped (Int64.ofNat i)).reverse

theorem reportsFrom_succ (n m : Nat) :
    reportsFrom n (m + 1) = reportsFrom (n + 1) m ++ [.dropped (Int64.ofNat n)] := by
  simp [reportsFrom, List.range'_succ]

/-- Whether a record can be destroyed now: nobody borrows it, and it has its block. -/
structure IsReady (w : World) (r : RecordId) : Prop where
  free : w.isBorrowed r = false
  record : ∀ rec, w.records[r]? = some rec → rec.slots.Sound ∧ rec.block.isSome = true

/-- `v` is `w` after the chain in `rs` went, whose head observed what `prev` says. -/
structure Falls (w : World) (h : HeapId) (n : Nat) (prev : Soft) (rs : List RecordId) (v : World) :
    Prop where
  /-- What is not in the chain is as it was; what the head observed has one handle fewer. -/
  others : ∀ q ∉ rs, v.records[q]? = (w.letGo prev).records[q]?
  returned : ∀ r ∈ rs, ∃ rec, v.records[r]? = some rec ∧ rec.block = none
  /-- As many observers are told as there are, but for those within the chain. -/
  absorbs : ∀ heap, w.heaps[h]? = some heap → heap.config.keeps = true →
    ∃ new k, v.heaps[h]? = some new ∧ heap.Absorbs rs.length k new ∧
      k + rs.tail.length = (rs.map w.liveObservers).sum
  heaps : ∀ q, q ≠ h → v.heaps[q]? = w.heaps[q]?
  /-- Each node is destroyed once, one after the other. -/
  log : v.log = reportsFrom n rs.length ++ w.log
  unwinding : v.unwinding = w.unwinding

/-- `v` is `w` in the midst of the destruction of node `r`: the chain that it owned has gone, and
its own handle is still there. -/
structure Hollows (w : World) (h : HeapId) (n : Nat) (r : RecordId) (rs : List RecordId)
    (v : World) : Prop where
  pending : v.pending = []
  self : ∃ rec b, v.records[r]? = some rec ∧ rec.object = none ∧ rec.block = some b ∧ rec.heap = h ∧
    rec.kind.mode.isTracked = true ∧
    rec.slots.liveCount + (if rs = [] then 0 else 1) = w.liveObservers r
  others : ∀ q ∉ r :: rs, v.records[q]? = w.records[q]?
  returned : ∀ q ∈ rs, ∃ rec, v.records[q]? = some rec ∧ rec.block = none
  absorbs : ∀ heap, w.heaps[h]? = some heap → heap.config.keeps = true →
    ∃ new k, v.heaps[h]? = some new ∧ heap.Absorbs rs.length k new ∧
      k + rs.tail.length = (rs.map w.liveObservers).sum
  heaps : ∀ q, q ≠ h → v.heaps[q]? = w.heaps[q]?
  log : v.log = reportsFrom (n + 1) rs.length ++ .dropped (Int64.ofNat n) :: w.log
  unwinding : v.unwinding = w.unwinding

/-- The node's handle goes, its observers are told, and its block goes back. -/
theorem Hollows.falls (hv : w.Hollows h n r rs v)
    (hprev : ∀ k, prev = some k → k.record ∉ r :: rs) :
    w.Falls h n prev (r :: rs) ((v.letGo prev).schedule [.retire r, .forget r]).drain := by
  obtain ⟨rec, b, hr, ho, hb, rfl, hm, hlive⟩ := hv.self
  have hkept {q : RecordId} (hq : q ∈ r :: rs) : (v.letGo prev).records[q]? = v.records[q]? :=
    records_letGo_of_ne prev fun k hk hkq => hprev k hk (hkq ▸ hq)
  have hidle : (v.letGo prev).pending = [] := (pending_letGo prev).trans hv.pending
  have hsame : (v.letGo prev).heaps = v.heaps ∧ (v.letGo prev).log = v.log ∧
      (v.letGo prev).unwinding = v.unwinding := by cases prev <;> exact ⟨rfl, rfl, rfl⟩
  obtain ⟨hrecords, hheaps, hlog, hunwinding⟩ :=
    drain_retire_of_tracked hidle ((hkept List.mem_cons_self).trans hr) ho hb hm
  rw [hsame.1] at hheaps
  refine ⟨fun q hq => ?_, fun q hq => ?_, fun heap hheap hk => ?_, fun q hq => ?_, ?_, ?_⟩
  · obtain ⟨hne, hmem⟩ : r ≠ q ∧ q ∉ rs := by simpa [eq_comm] using hq
    rw [hrecords, if_neg hne]
    cases prev with
    | none => exact hv.others q hq
    | some k => simp only [letGo, modifyRecord, Array.getElem?_modify, hv.others q hq]
  · rw [hrecords]
    split_ifs with hrq
    · exact ⟨_, rfl, rfl⟩
    · rw [hkept hq]
      exact hv.returned q ((List.mem_cons.mp hq).resolve_left (Ne.symm hrq))
  · obtain ⟨mid, k, hmid, habsorbs, hsum⟩ := hv.absorbs heap hheap hk
    have hend := mid.absorbs_release (by rw [habsorbs.config, hk]) b rec.slots.liveCount
    refine ⟨_, _, by rw [hheaps, if_pos rfl, hmid]; rfl, habsorbs.trans hend, ?_⟩
    rw [List.map_cons, List.sum_cons, ← hsum, ← hlive]
    cases rs with
    | nil => simp [Nat.add_comm]
    | cons q rs =>
      simp only [List.tail_cons, List.length_cons, reduceCtorEq, if_false]
      omega
  · rw [hheaps, if_neg (Ne.symm hq), hv.heaps q hq]
  · rw [hlog, hsame.2.1, hv.log, List.length_cons, reportsFrom_succ, List.append_assoc]
    rfl
  · rw [hunwinding, hsame.2.2, hv.unwinding]

/-- The world when node `r` has left its record and is reported. -/
def opened (w : World) (r : RecordId) (n : Nat) (next : Owner) (prev : Soft) : World :=
  (w.modifyRecord r (empties (Item.image [.node (Int64.ofNat n) .plain next prev]))).report
    [.dropped (Int64.ofNat n)]

theorem records_opened_of_ne {next : Owner} {q : RecordId} (hq : r ≠ q) :
    (w.opened r n next prev).records[q]? = w.records[q]? := by
  simp [opened, report, modifyRecord, Array.getElem?_modify, hq]

theorem records_opened {next : Owner} (hr : w.records[r]? = some rec) :
    (w.opened r n next prev).records[r]? =
      some (empties (Item.image [.node (Int64.ofNat n) .plain next prev]) rec) := by
  simp [opened, report, modifyRecord, Array.getElem?_modify, hr]

/-- The owner of a node goes: first what the node owns goes, then its handle. -/
theorem Hollows.drain_dropOwner (hp : w.pending = []) (hr : w.records[r]? = some rec)
    (hn : rec.IsNode h n rs.head? prev) (hb : w.isBorrowed r = false)
    (hv : w.Hollows h n r rs ((w.opened r n rs.head? prev).schedule [.dropOwner rs.head?]).drain)
    (hprev : ∀ k, prev = some k → k.record ∉ r :: rs ∧ w.object? k.record = none) :
    w.Falls h n prev (r :: rs) (w.schedule [.dropOwner (some r)]).drain := by
  have hgone : ∀ k, prev = some k →
      ((w.opened r n rs.head? prev).schedule [.dropOwner rs.head?]).drain.object? k.record =
        none := by
    intro k hk
    obtain ⟨hout, hnone⟩ := hprev k hk
    rw [object?, hv.others k.record hout, ← object?, hnone]
  have hfalls := hv.falls fun k hk => (hprev k hk).1
  rw [← drain_dropSoft_of_gone hv.pending prev hgone] at hfalls
  rw [drain_dropOwner_of_free hp hr hn.object hb, List.foldl_cons, List.foldl_nil,
    destroy_plain (by exact hp)]
  exact hfalls

theorem IsReady.congr (hw : w.IsReady r) (hr : v.records[r]? = w.records[r]?) : v.IsReady r where
  free := by rw [isBorrowed, hr, ← isBorrowed, hw.free]
  record rec hrec := hw.record rec (hr ▸ hrec)

/-- A valid handle has a live ticket. -/
theorem find?_of_isValid {t : Ticket} (hr : w.records[r]? = some rec)
    (hv : w.isValid (some ⟨r, some t⟩) = true) : rec.slots.find? t = some .live := by
  simp only [isValid, watched, hr] at hv
  split at hv
  · cases hv
  · rename_i hvouches
    simpa [Record.vouches, SlotTable.isLive] using hvouches

/-- The last node owns nothing. -/
theorem hollows_nil (hp : w.pending = []) (hr : w.records[r]? = some rec)
    (hn : rec.IsNode h n none prev) (hready : w.IsReady r) :
    w.Hollows h n r [] ((w.opened r n none prev).schedule [.dropOwner none]).drain := by
  obtain ⟨b, hb⟩ := Option.isSome_iff_exists.mp (hready.record rec hr).2
  have hidle : (w.opened r n none prev).pending = [] := hp
  rw [drain_schedule_cons]
  show w.Hollows h n r [] (w.opened r n none prev).drain
  rw [drain_of_idle hidle]
  refine ⟨hidle, ⟨_, _, records_opened hr, rfl, by simp [empties, hb]; rfl, hn.heap, ?_, ?_⟩,
    fun q hq => ?_, by simp, fun heap hheap _ => ⟨heap, 0, hheap, .refl heap, rfl⟩,
    fun _ _ => rfl, rfl, rfl⟩
  · simp [empties, hn.kind, Op.nodeKind, Mode.isTracked]
  · rw [liveObservers_of_record hr, if_pos rfl]
    rfl
  · exact records_opened_of_ne (by simpa [eq_comm] using hq)

/-- The chain that a node owns goes; so does the handle in it on the node. -/
theorem hollows_cons {q : RecordId} {t : Ticket} (hr : w.records[r]? = some rec)
    (hn : rec.IsNode h n (some q) prev) (hready : w.IsReady r) (hout : r ∉ q :: rs)
    (ht : w.isValid (some ⟨r, some t⟩) = true)
    (hv : (w.opened r n (some q) prev).Falls h (n + 1) (some ⟨r, some t⟩) (q :: rs) v)
    (hidle : v.pending = []) : w.Hollows h n r (q :: rs) v := by
  obtain ⟨hslots, hblock⟩ := hready.record rec hr
  obtain ⟨b, hb⟩ := Option.isSome_iff_exists.mp hblock
  have hkept {j : RecordId} (hj : j ∈ q :: rs) :
      (w.opened r n (some q) prev).records[j]? = w.records[j]? :=
    records_opened_of_ne fun he => hout (he ▸ hj)
  have hlive :
      (q :: rs).map (w.opened r n (some q) prev).liveObservers = (q :: rs).map w.liveObservers :=
    List.map_congr_left fun j hj => by rw [liveObservers, hkept hj, ← liveObservers]
  have hself : v.records[r]? = some
      ((empties (Item.image [.node (Int64.ofNat n) .plain (some q) prev]) rec).deregister
        (some t)).left := by
    rw [hv.others r hout]
    simp [letGo, modifyRecord, Array.getElem?_modify, records_opened hr]
  refine ⟨hidle,
    ⟨_, _, hself, rfl, by simp [Record.left, Record.deregister, empties, hb]; rfl, hn.heap, ?_, ?_⟩,
    fun j hj => ?_, hv.returned, fun heap hheap hk => ?_, hv.heaps, hv.log, hv.unwinding⟩
  · simp [Record.left, Record.deregister, empties, hn.kind, Op.nodeKind, Mode.isTracked]
  · rw [liveObservers_of_record hr, if_neg (List.cons_ne_nil q rs)]
    exact hslots.liveCount_remove (find?_of_isValid hr ht)
  · obtain ⟨hne, hmem⟩ : r ≠ j ∧ j ∉ q :: rs := by simpa [eq_comm] using hj
    rw [hv.others j hmem, records_letGo_of_ne _ (by simpa using hne), records_opened_of_ne hne]
  · obtain ⟨new, k, hnew, habsorbs, hsum⟩ := hv.absorbs heap hheap hk
    exact ⟨new, k, hnew, habsorbs, by rw [hsum, hlive]⟩

/-- A chain goes when the owner of its head does, if nobody borrows its nodes. -/
theorem falls (hp : w.pending = []) (hl : w.Linked h n prev (r :: rs))
    (hready : ∀ q ∈ r :: rs, w.IsReady q)
    (hprev : ∀ k, prev = some k → k.record ∉ r :: rs ∧ w.object? k.record = none) :
    w.Falls h n prev (r :: rs) (w.schedule [.dropOwner (some r)]).drain := by
  -- each node goes in the midst of the destruction of the one before it
  induction rs generalizing w n prev r with
  | nil =>
    obtain ⟨⟨rec, hr, hnode⟩, -⟩ := hl
    have hfirst := hready r List.mem_cons_self
    exact (hollows_nil hp hr hnode hfirst).drain_dropOwner hp hr hnode hfirst.free hprev
  | cons q rs ih =>
    obtain ⟨⟨rec, hr, hnode⟩, hout, t, hvalid, hrest⟩ := hl
    have hfirst := hready r List.mem_cons_self
    have hkept (j : RecordId) (hj : j ∈ q :: rs) :
        (w.opened r n (some q) prev).records[j]? = w.records[j]? :=
      records_opened_of_ne fun he => hout (he ▸ hj)
    have hinner := ih (w := w.opened r n (some q) prev) hp (hrest.congr hkept)
      (fun j hj => (hready j (List.mem_cons_of_mem r hj)).congr (hkept j hj)) fun k hk => by
        obtain rfl := Option.some.inj hk
        exact ⟨hout, object?_of_record (records_opened hr)⟩
    have hhollows :=
      hollows_cons hr hnode hfirst hout (hvalid (List.cons_ne_nil q rs)) hinner (pending_drain _)
    exact hhollows.drain_dropOwner hp hr hnode hfirst.free hprev

end World

end Custody

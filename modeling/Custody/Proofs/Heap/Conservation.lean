import Custody.Proofs.Heap.Accounts

/-! Heap accounting. The counters of a heap are those of what it was asked for: the blocks
that it granted, those that came back, and what became of them. As long as raw blocks go
back to the heap that they came from, what a heap granted is what came back and what is
still charged to it. -/

namespace Custody

namespace Heap

namespace Request

/-- The block that a heap is asked to grant. -/
def granted? : Request → Option Block
  | .allocated b => some b
  | _ => none

/-- The block that a heap is asked to take back. -/
def returned? : Request → Option Block
  | .release b _ => some b
  | _ => none

/-- The block that goes to the arena at once: not both the caller and the configuration ask
for it to be kept. -/
def freed? (keeps : Bool) : Request → Option Block
  | .release b keep => if keep && keeps then none else some b
  | _ => none

variable {keeps : Bool} {b : Block} {keep : Bool}

@[simp] theorem freed?_allocated : (allocated b).freed? keeps = none := rfl

theorem freed?_of_kept (hk : (keep && keeps) = true) :
    (release b keep).freed? keeps = none := if_pos hk

theorem freed?_of_not_kept (hk : (keep && keeps) ≠ true) :
    (release b keep).freed? keeps = some b := if_neg hk

@[simp] theorem granted?_release : (release b keep).granted? = none := rfl

@[simp] theorem granted?_allocated : (allocated b).granted? = some b := rfl

@[simp] theorem returned?_release : (release b keep).returned? = some b := rfl

@[simp] theorem returned?_allocated : (allocated b).returned? = none := rfl

end Request

/-- The blocks that a heap was asked to grant. -/
def granted (rs : List Request) : List Block := rs.filterMap Request.granted?

/-- The blocks that came back. -/
def returned (rs : List Request) : List Block := rs.filterMap Request.returned?

/-- Those of them that were not kept. -/
def freed (keeps : Bool) (rs : List Request) : List Block := rs.filterMap fun r => r.freed? keeps

theorem filterMap_concat (f : Request → Option Block) (rs : List Request) (r : Request) :
    (rs ++ [r]).filterMap f = rs.filterMap f ++ (f r).toList := by
  rw [List.filterMap_append]
  cases hr : f r <;> simp [hr]

@[simp] theorem granted_concat (rs : List Request) (r : Request) :
    granted (rs ++ [r]) = granted rs ++ r.granted?.toList := filterMap_concat _ rs r

@[simp] theorem returned_concat (rs : List Request) (r : Request) :
    returned (rs ++ [r]) = returned rs ++ r.returned?.toList := filterMap_concat _ rs r

@[simp] theorem freed_concat (keeps : Bool) (rs : List Request) (r : Request) :
    freed keeps (rs ++ [r]) = freed keeps rs ++ (r.freed? keeps).toList := filterMap_concat _ rs r

/-- The counters of a heap agree with its quarantine and with what was asked of it. -/
structure Balanced (h : Heap) (rs : List Request) : Prop where
  keptBlocks : h.stats.keptBlocks = h.quarantine.blocks.length
  keptBytes : h.stats.keptBytes = (h.quarantine.blocks.map Block.size).sum
  count : h.quarantine.count = h.quarantine.blocks.length
  bytes : h.quarantine.bytes = (h.quarantine.blocks.map Block.size).sum
  allocations : h.stats.allocations = (granted rs).length
  deallocations : h.stats.deallocations = (returned rs).length
  /-- What came back is kept, was kept until the quarantine was emptied, or was freed. -/
  parted : h.stats.deallocations =
    h.stats.keptBlocks + h.stats.reclaimed + (freed h.config.keeps rs).length

variable {h : Heap} {rs : List Request} {r : Request}

theorem balanced_fresh (c : Config) : (fresh c).Balanced [] := ⟨rfl, rfl, rfl, rfl, rfl, rfl, rfl⟩

theorem Balanced.note (hb : h.Balanced rs) (hr : r.IsNote) : (h.obey r).Balanced rs := by
  cases r with
  | allocated | release => cases hr
  | registered | invalidated =>
    exact ⟨hb.keptBlocks, hb.keptBytes, hb.count, hb.bytes, hb.allocations, hb.deallocations,
      hb.parted⟩
  | setDetecting on =>
    simp only [obey, setDetecting, Quarantine.setDetecting]
    split_ifs
    · exact ⟨hb.keptBlocks, hb.keptBytes, hb.count, hb.bytes, hb.allocations, hb.deallocations,
        hb.parted⟩
    · exact hb
  | reclaim =>
    refine ⟨rfl, rfl, rfl, rfl, hb.allocations, hb.deallocations, ?_⟩
    have hparted := hb.parted
    rw [hb.keptBlocks] at hparted
    simp only [obey, reclaim, Quarantine.reclaim, Stats.cleared]
    omega

theorem Balanced.allocated (hb : h.Balanced rs) (b : Block) :
    (h.obey (.allocated b)).Balanced (rs ++ [.allocated b]) where
  keptBlocks := hb.keptBlocks
  keptBytes := hb.keptBytes
  count := hb.count
  bytes := hb.bytes
  allocations := by simp [obey, noteAllocated, Stats.allocated, hb.allocations]
  deallocations := by
    simpa [obey, noteAllocated, Stats.allocated] using hb.deallocations
  parted := by simpa [obey, noteAllocated, Stats.allocated] using hb.parted

theorem size_prepare (h : Heap) (b : Block) : (h.prepare b).size = b.size := by
  unfold prepare
  split_ifs <;> rfl

theorem Balanced.kept (hb : h.Balanced rs) (b : Block) {keep : Bool}
    (hk : (keep && h.config.keeps) = true) :
    (h.obey (.release b keep)).Balanced (rs ++ [.release b keep]) := by
  have hobey : h.obey (.release b keep) =
      { h with
        quarantine := h.quarantine.push (h.prepare b)
        stats := (h.stats.released b.size).kept b.size } := by
    simp only [obey, Heap.release, if_pos hk]
  rw [hobey]
  exact
    { keptBlocks := by simp [Stats.kept, Stats.released, Quarantine.push, hb.keptBlocks]
      keptBytes := by
        simp [Stats.kept, Stats.released, Quarantine.push, size_prepare, hb.keptBytes, add_comm]
      count := by simp [Quarantine.push, hb.count]
      bytes := by simp [Quarantine.push, size_prepare, hb.bytes, add_comm]
      allocations := by simpa [Stats.kept, Stats.released] using hb.allocations
      deallocations := by simp [Stats.kept, Stats.released, hb.deallocations]
      parted := by
        have hparted := hb.parted
        rw [freed_concat, Request.freed?_of_kept hk, Option.toList_none, List.append_nil]
        simp only [Stats.kept, Stats.released]
        omega }

theorem Balanced.freed (hb : h.Balanced rs) (b : Block) {keep : Bool}
    (hk : (keep && h.config.keeps) ≠ true) :
    (h.obey (.release b keep)).Balanced (rs ++ [.release b keep]) := by
  have hobey : h.obey (.release b keep) = { h with stats := h.stats.released b.size } := by
    simp only [obey, Heap.release, if_neg hk]
  rw [hobey]
  exact
    { keptBlocks := hb.keptBlocks
      keptBytes := hb.keptBytes
      count := hb.count
      bytes := hb.bytes
      allocations := by simpa [Stats.released] using hb.allocations
      deallocations := by simp [Stats.released, hb.deallocations]
      parted := by
        have hparted := hb.parted
        rw [freed_concat, Request.freed?_of_not_kept hk, Option.toList_some, List.length_append]
        simp only [Stats.released, List.length_singleton]
        omega }

theorem Balanced.release (hb : h.Balanced rs) (b : Block) (keep : Bool) :
    (h.obey (.release b keep)).Balanced (rs ++ [.release b keep]) := by
  by_cases hk : (keep && h.config.keeps) = true
  · exact hb.kept b hk
  · exact hb.freed b hk

end Heap

namespace World

variable {tidy : Prop} {v w : World} {h : HeapId} {heap : Heap} {rs : List Heap.Request}
  {r : Heap.Request}

/-! ### The journal of a heap -/

/-- What an action asks of heap `h`, if there is such a heap, that moves a block. -/
def movementOf (w : World) (h : HeapId) (a : Action) : List Heap.Request :=
  match w.movement a with
  | some (k, r) => if k = h ∧ h < w.heaps.size then [r] else []
  | none => []

/-- What the actions of a run ask of heap `h` that moves a block. -/
def journal (h : HeapId) : World → List Action → List Heap.Request
  | _, [] => []
  | w, a :: as => w.movementOf h a ++ journal h (a.run w) as

theorem journal_append (h : HeapId) (w : World) (as bs : List Action) :
    journal h w (as ++ bs) = journal h w as ++ journal h (as.foldl Action.run w) bs := by
  induction as generalizing w with
  | nil => rfl
  | cons a as ih => rw [List.cons_append, journal, journal, ih, List.append_assoc, List.foldl_cons]

theorem journal_concat (h : HeapId) (w : World) (as : List Action) (a : Action) :
    journal h w (as ++ [a]) = journal h w as ++ (as.foldl Action.run w).movementOf h a := by
  rw [journal_append, journal, journal, List.append_nil]

/-- A heap is balanced with a list of requests; nothing was asked of one that is not there. -/
structure Audited (w : World) (h : HeapId) (rs : List Heap.Request) : Prop where
  balanced : ∀ heap, w.heaps[h]? = some heap → heap.Balanced rs
  absent : w.heaps.size ≤ h → rs = []

theorem Audited.note (ha : w.Audited h rs) {k : HeapId} (hr : r.IsNote)
    (hv : v.heaps = w.heaps.modify k (·.obey r)) : v.Audited h rs where
  balanced heap hheap := by
    obtain ⟨old, hold, rfl⟩ := getElem?_heaps_modify hv hheap
    have hb := ha.balanced old hold
    split_ifs
    · exact hb.note hr
    · exact hb
  absent hle := by
    apply ha.absent
    rwa [hv, Array.size_modify] at hle

theorem Audited.stills (ha : w.Audited h rs) (hs : Stills w v) : v.Audited h rs := by
  induction hs with
  | refl => exact ha
  | tail _ hd ih =>
    cases hd with
    | rest hh _ _ => exact ⟨fun heap hheap => ih.balanced heap (hh ▸ hheap), hh ▸ ih.absent⟩
    | note k r hr hh _ _ => exact ih.note hr.isNote hh

/-- A request that moves a block goes into the journal of the heap that it is made of. -/
theorem Audited.asked (ha : w.Audited h rs) {k : HeapId}
    (hr : ∀ (heap : Heap) rs, heap.Balanced rs → (heap.obey r).Balanced (rs ++ [r]))
    (hv : v.heaps = w.heaps.modify k (·.obey r)) :
    v.Audited h (rs ++ if k = h ∧ h < w.heaps.size then [r] else []) where
  balanced heap hheap := by
    obtain ⟨old, hold, rfl⟩ := getElem?_heaps_modify hv hheap
    have hb := ha.balanced old hold
    have hlt : h < w.heaps.size := (Array.getElem?_eq_some_iff.mp hold).1
    by_cases hk : k = h
    · rw [if_pos hk, if_pos ⟨hk, hlt⟩]
      exact hr old rs hb
    · rw [if_neg hk, if_neg (fun hkh => hk hkh.1), List.append_nil]
      exact hb
  absent hle := by
    rw [hv, Array.size_modify] at hle
    rw [ha.absent hle, if_neg (fun hk => absurd hk.2 hle.not_gt), List.append_nil]

theorem Audited.run (ha : w.Audited h rs) (a : Action) :
    (a.run w).Audited h (rs ++ w.movementOf h a) := by
  unfold movementOf
  cases hm : w.movement a with
  | none =>
    rw [List.append_nil]
    obtain ⟨k, rfl⟩ | hmoves := moves_run (w := w) a
    · exact ha.note (r := .reclaim) trivial rfl
    rw [hm] at hmoves
    cases hmoves with
    | still hs => exact ha.stills hs
    | openHeap c hh _ _ =>
      constructor
      · intro heap hheap
        rw [hh, Array.getElem?_push] at hheap
        split_ifs at hheap with hnew
        · obtain rfl := Option.some.inj hheap
          rw [ha.absent hnew.ge]
          exact Heap.balanced_fresh c
        · exact ha.balanced heap hheap
      · intro hle
        rw [hh, Array.size_push] at hle
        exact ha.absent (by omega)
  | some m =>
    obtain ⟨k, r⟩ := m
    cases moves_of_movement hm with
    | @settle u _ b keep hs ht =>
      rw [← hs.size_heaps]
      exact (ha.stills hs).asked (fun _ _ hb => hb.release b keep) ht.heaps
    | @grant u _ b hs hg =>
      rw [← hs.size_heaps]
      exact (ha.stills hs).asked (fun _ _ hb => hb.allocated b) hg.heaps

theorem audited_start (grant : Nat) (h : HeapId) : (start grant).Audited h [] where
  balanced heap hh := by
    obtain rfl : Heap.fresh .standard = heap := by
      cases h <;> simp [start] at hh
      exact hh
    exact Heap.balanced_fresh .standard
  absent _ := rfl

theorem audited_foldl (grant : Nat) (h : HeapId) (as : List Action) :
    (as.foldl Action.run (start grant)).Audited h (journal h (start grant) as) := by
  induction as using List.reverseRecOn with
  | nil => exact audited_start grant h
  | append_singleton as a ih =>
    rw [List.foldl_append, journal_concat]
    exact ih.run a

/-! ### What is out -/

/-- What heap `h` granted is what came back and what is still charged to it. -/
def Conserves (w : World) (h : HeapId) (rs : List Heap.Request) : Prop :=
  ((Heap.granted rs).map Block.extent : Multiset Extent) =
    ((Heap.returned rs).map Block.extent : Multiset Extent) + (w.chargedTo h).map Charge.extent

theorem chargedTo_cons {c : Charge} (hc : w.charges = {c} + v.charges) (h : HeapId) :
    w.chargedTo h = (if c.heap = h then {c} else 0) + v.chargedTo h := by
  rw [chargedTo, hc, Multiset.filter_add, Multiset.filter_singleton, chargedTo]
  split_ifs <;> rfl

theorem Conserves.congr (hc : w.Conserves h rs) (hv : v.charges = w.charges) :
    v.Conserves h rs := by
  rw [Conserves, chargedTo, hv]
  exact hc

theorem Conserves.settle (hc : w.Conserves h rs) {k : HeapId} {b : Block} {keep : Bool}
    (hv : w.charges = {⟨k, b.extent⟩} + v.charges) :
    v.Conserves h (rs ++ if k = h then [.release b keep] else []) := by
  have hcharged := chargedTo_cons hv h
  unfold Conserves at hc ⊢
  split_ifs at hcharged ⊢ with hk
  · simp only [Heap.granted_concat, Heap.returned_concat, Heap.Request.granted?_release,
      Heap.Request.returned?_release, Option.toList_none, Option.toList_some, List.append_nil,
      List.map_append, List.map_singleton, ← Multiset.coe_add, Multiset.coe_singleton]
    rw [hc, hcharged, Multiset.map_add, Multiset.map_singleton, add_assoc]
  · rw [hcharged, zero_add] at hc
    rw [List.append_nil, hc]

theorem Conserves.grant (hc : w.Conserves h rs) {k : HeapId} {b : Block}
    (hv : v.charges = {⟨k, b.extent⟩} + w.charges) :
    v.Conserves h (rs ++ if k = h then [.allocated b] else []) := by
  have hcharged := chargedTo_cons hv h
  unfold Conserves at hc ⊢
  split_ifs at hcharged ⊢ with hk
  · simp only [Heap.granted_concat, Heap.returned_concat, Heap.Request.granted?_allocated,
      Heap.Request.returned?_allocated, Option.toList_none, Option.toList_some, List.append_nil,
      List.map_append, List.map_singleton, ← Multiset.coe_add, Multiset.coe_singleton]
    rw [hc, hcharged, Multiset.map_add, Multiset.map_singleton]
    ac_rfl
  · rw [hcharged, zero_add, List.append_nil, hc]

/-- What tidy actions move is asked of heaps that exist. -/
theorem Accounted.movementOf (ha : w.Accounted) {a : Action} (ht : a.isTidy w = true) {k : HeapId}
    (hm : w.movement a = some (k, r)) : w.movementOf h a = if k = h then [r] else [] := by
  have hk : k < w.heaps.size := by
    cases moves_of_movement hm with
    | settle hs hb =>
      obtain ⟨owner, howner, hc⟩ := hb.charges
      obtain rfl := howner ht
      apply ha.known ⟨owner, _⟩
      rw [← hs.charges, hc, Multiset.singleton_add]
      exact Multiset.mem_cons_self _ _
    | grant hs hg => exact hs.size_heaps ▸ hg.known ht
  simp only [World.movementOf, hm]
  by_cases hkh : k = h
  · rw [if_pos ⟨hkh, hkh ▸ hk⟩, if_pos hkh]
  · rw [if_neg fun hboth => hkh hboth.1, if_neg hkh]

theorem Conserves.run (hc : w.Conserves h rs) (ha : w.Accounted) {a : Action}
    (ht : a.isTidy w = true) : (a.run w).Conserves h (rs ++ w.movementOf h a) := by
  cases hm : w.movement a with
  | none =>
    rw [World.movementOf, hm, List.append_nil]
    obtain ⟨k, rfl⟩ | hmoves := moves_run (w := w) a
    · exact hc.congr rfl
    rw [hm] at hmoves
    cases hmoves with
    | still hs => exact hc.congr hs.charges
    | openHeap c _ hcharges _ => exact hc.congr hcharges
  | some m =>
    obtain ⟨k, r⟩ := m
    rw [ha.movementOf ht hm]
    cases moves_of_movement hm with
    | settle hs hb =>
      obtain ⟨owner, howner, hcharges⟩ := hb.charges
      obtain rfl := howner ht
      exact (hc.congr hs.charges).settle hcharges
    | grant hs hg => exact (hc.congr hs.charges).grant hg.charges

theorem conserves_start (grant : Nat) (h : HeapId) : (start grant).Conserves h [] := rfl

/-- A run that is tidy up to its last action, and that action. -/
theorem allTidy_concat (as : List Action) (a : Action) :
    w.allTidy (as ++ [a]) = (w.allTidy as && a.isTidy (as.foldl Action.run w)) := by
  induction as generalizing w with
  | nil => simp [allTidy]
  | cons b as ih => rw [List.cons_append, allTidy, ih, allTidy, Bool.and_assoc, List.foldl_cons]

theorem conserves_foldl {grant : Nat} {as : List Action} (ht : (start grant).allTidy as = true)
    (h : HeapId) :
    (as.foldl Action.run (start grant)).Conserves h (journal h (start grant) as) := by
  induction as using List.reverseRecOn with
  | nil => exact conserves_start grant h
  | append_singleton as a ih =>
    rw [allTidy_concat, Bool.and_eq_true] at ht
    rw [List.foldl_append, journal_concat]
    exact (ih ht.1).run (reachesTidily_foldl ht.1).accounted ht.2

/-- A block that comes back is counted as live until then. -/
theorem Accounted.le_live (ha : w.Accounted) (hheap : w.heaps[h]? = some heap) {a : Action}
    (ht : a.isTidy w = true) {b : Block} {keep : Bool}
    (hm : w.movement a = some (h, .release b keep)) :
    0 < heap.stats.liveBlocks ∧ b.size ≤ heap.stats.liveBytes := by
  cases moves_of_movement hm with
  | settle hs hb =>
    obtain ⟨owner, howner, hc⟩ := hb.charges
    obtain rfl := howner ht
    rw [hs.charges] at hc
    obtain ⟨hblocks, hbytes⟩ := chargedTo_add hc owner
    obtain ⟨hliveBlocks, hliveBytes⟩ := ha.live hheap
    rw [if_pos rfl] at hblocks hbytes
    rw [Extent.size_extent] at hbytes
    omega

/-- What one heap counts of a run in which raw blocks went back to the heap that they came
from: what is live is what is charged to it, and no release counts below zero. -/
structure Conserved (w : World) (h : HeapId) (heap : Heap) (rs : List Heap.Request) : Prop where
  allocations : heap.stats.allocations = heap.stats.deallocations + heap.stats.liveBlocks
  liveBlocks : heap.stats.liveBlocks = (w.chargedTo h).card
  liveBytes : heap.stats.liveBytes = w.bytesChargedTo h
  conserves : w.Conserves h rs
  releases : ∀ a b keep, a.isTidy w = true → w.movement a = some (h, .release b keep) →
    0 < heap.stats.liveBlocks ∧ b.size ≤ heap.stats.liveBytes

/-- After every run, in the midst of destruction too, the counters of every heap agree with
its quarantine and with what the run asked of it: what came back is kept, was kept until the
quarantine was emptied, or was freed at once. If every raw block went back to the heap that
it came from, what a heap granted is what came back and what is live, in number, in bytes
and block by block. -/
theorem accounts_conserved {grant : Nat} {as : List Action} {w : World} {h : HeapId} {heap : Heap}
    (hw : w = as.foldl Action.run (start grant)) (hheap : w.heaps[h]? = some heap) :
    heap.Balanced (journal h (start grant) as) ∧
      ((start grant).allTidy as = true → w.Conserved h heap (journal h (start grant) as)) := by
  subst hw
  have hb := (audited_foldl grant h as).balanced heap hheap
  refine ⟨hb, fun ht => ?_⟩
  have ha := (reachesTidily_foldl ht).accounted
  have hc := conserves_foldl ht h
  exact
    { allocations := by
        have hcard := congrArg Multiset.card hc
        simp only [Multiset.coe_card, List.length_map, Multiset.card_add,
          Multiset.card_map] at hcard
        rw [hb.allocations, hb.deallocations, (ha.live hheap).1, hcard]
      liveBlocks := (ha.live hheap).1
      liveBytes := (ha.live hheap).2
      conserves := hc
      releases := fun a b keep htidy hm => ha.le_live hheap htidy hm }

/-- A raw block, an array that is never finished, and a node; the raw block comes back and
the quarantine is emptied, then the node goes while a guard is on it. -/
def mixedTraffic : List Action :=
  [.allot 0 ⟨16, 8⟩ 2, .construct 0 ⟨.array, .int, .tracked⟩ ⟨3, fun _ => .int 5, some 1⟩,
    .tick, .tick, .giveBack 0 0, .reclaim 0,
    .construct 0 ⟨.one, .node, .tracked⟩ (.single (.node 7 .plain)),
    .newSoft, .attach 0 (.soft 0), .lend (.soft (.soft 0)) .shared, .discardOwner 1, .tick]

theorem accounts_mixedTraffic : ∃ heap,
    (mixedTraffic.foldl Action.run (start defaultGrant)).heaps[0]? = some heap ∧
      heap.stats.liveBlocks = 1 ∧ heap.stats.reclaimed = 1 ∧
      heap.stats.allocations = heap.stats.deallocations + heap.stats.liveBlocks ∧
      heap.stats.deallocations = heap.stats.keptBlocks + heap.stats.reclaimed + 1 := by
  obtain ⟨heap, hheap⟩ := Option.isSome_iff_exists.mp
    (show ((mixedTraffic.foldl Action.run (start defaultGrant)).heaps[0]?).isSome = true by decide)
  obtain ⟨hb, hc⟩ := accounts_conserved rfl hheap
  have hlive := hc (by decide)
  have hvalues : (mixedTraffic.foldl Action.run (start defaultGrant)).heaps[0]?.map (fun heap =>
      (heap.stats.liveBlocks, heap.stats.reclaimed,
        (Heap.freed heap.config.keeps (journal 0 (start defaultGrant) mixedTraffic)).length)) =
      some (1, 1, 1) := by decide
  rw [hheap, Option.map_some, Option.some.injEq, Prod.mk.injEq, Prod.mk.injEq] at hvalues
  obtain ⟨hblocks, hreclaimed, hfreed⟩ := hvalues
  have hparted := hb.parted
  rw [hfreed] at hparted
  exact ⟨heap, hheap, hblocks, hreclaimed, hlive.allocations, hparted⟩

end World

end Custody

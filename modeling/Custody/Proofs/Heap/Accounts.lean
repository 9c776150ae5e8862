import Custody.Proofs.Memory.Deals

/-! What heaps count as live. As long as every raw block goes back to the heap that it came
from, a heap counts the blocks that it granted and that have not come back, and their
bytes. -/

namespace Custody

namespace Extent

def size (s : Extent) : Nat := s.past - s.first

@[simp] theorem size_extent (b : Block) : b.extent.size = b.size := Nat.add_sub_cancel_left _ _

end Extent

namespace World

variable {tidy : Prop} {v w : World} {h : HeapId} {heap : Heap}

/-- The blocks that one heap granted and that have not come back. -/
def chargedTo (w : World) (h : HeapId) : Multiset Charge := w.charges.filter fun c => c.heap = h

/-- The bytes of these blocks. -/
def bytesChargedTo (w : World) (h : HeapId) : Nat :=
  ((w.chargedTo h).map fun c => c.extent.size).sum

/-- What is charged is charged to heaps that exist, and they count just that. -/
structure Accounted (w : World) : Prop where
  known : ∀ c ∈ w.charges, c.heap < w.heaps.size
  blocks : ∀ h heap, w.heaps[h]? = some heap → heap.stats.liveBlocks = (w.chargedTo h).card
  bytes : ∀ h heap, w.heaps[h]? = some heap → heap.stats.liveBytes = w.bytesChargedTo h

theorem chargedTo_add {c : Charge} (hc : w.charges = {c} + v.charges) (h : HeapId) :
    (w.chargedTo h).card = (v.chargedTo h).card + (if c.heap = h then 1 else 0) ∧
      w.bytesChargedTo h = v.bytesChargedTo h + (if c.heap = h then c.extent.size else 0) := by
  rw [Multiset.singleton_add] at hc
  simp only [bytesChargedTo, chargedTo, hc, Multiset.filter_cons]
  split_ifs <;> simp [add_comm]

theorem chargedTo_congr (hc : v.charges = w.charges) (h : HeapId) :
    (v.chargedTo h).card = (w.chargedTo h).card ∧ v.bytesChargedTo h = w.bytesChargedTo h := by
  simp only [bytesChargedTo, chargedTo, hc, and_self]

theorem live_obey_note {r : Heap.Request} (hr : r.IsNote) :
    (heap.obey r).stats.liveBlocks = heap.stats.liveBlocks ∧
      (heap.obey r).stats.liveBytes = heap.stats.liveBytes := by
  cases r with
  | allocated | release => cases hr
  | registered | invalidated | reclaim => exact ⟨rfl, rfl⟩
  | setDetecting on =>
    simp only [Heap.obey, Heap.setDetecting]
    cases heap.quarantine.setDetecting on <;> exact ⟨rfl, rfl⟩

theorem live_obey_release (b : Block) (keep : Bool) :
    (heap.obey (.release b keep)).stats.liveBlocks = heap.stats.liveBlocks - 1 ∧
      (heap.obey (.release b keep)).stats.liveBytes = heap.stats.liveBytes - b.size := by
  simp only [Heap.obey, Heap.release]
  split_ifs <;> exact ⟨rfl, rfl⟩

/-- What one heap counts as live, after it was asked for something and before. -/
theorem getElem?_heaps_modify {r : Heap.Request} {i : HeapId}
    (hv : v.heaps = w.heaps.modify h (·.obey r)) (hi : v.heaps[i]? = some heap) :
    ∃ old, w.heaps[i]? = some old ∧ heap = if h = i then old.obey r else old := by
  rw [hv, Array.getElem?_modify] at hi
  split_ifs at hi with hhi
  · obtain ⟨old, hold, rfl⟩ := Option.map_eq_some_iff.mp hi
    exact ⟨old, hold, by rw [if_pos hhi]⟩
  · exact ⟨heap, hi, by rw [if_neg hhi]⟩

theorem Accounted.of_live (hknown : ∀ c ∈ v.charges, c.heap < v.heaps.size)
    (hlive : ∀ h heap, v.heaps[h]? = some heap →
      heap.stats.liveBlocks = (v.chargedTo h).card ∧ heap.stats.liveBytes = v.bytesChargedTo h) :
    v.Accounted where
  known := hknown
  blocks h heap hheap := (hlive h heap hheap).1
  bytes h heap hheap := (hlive h heap hheap).2

theorem Accounted.live (ha : w.Accounted) (hheap : w.heaps[h]? = some heap) :
    heap.stats.liveBlocks = (w.chargedTo h).card ∧ heap.stats.liveBytes = w.bytesChargedTo h :=
  ⟨ha.blocks h heap hheap, ha.bytes h heap hheap⟩

/-- Nothing is charged to a heap before it exists. -/
theorem Accounted.chargedTo_new (ha : w.Accounted) :
    (w.chargedTo w.heaps.size).card = 0 ∧ w.bytesChargedTo w.heaps.size = 0 := by
  have hzero : w.chargedTo w.heaps.size = 0 :=
    Multiset.filter_eq_nil.mpr fun c hmem heq => (ha.known c hmem).ne heq
  simp [bytesChargedTo, hzero]

theorem Accounted.deal (ha : w.Accounted) (hd : Deal True w v) : v.Accounted := by
  cases hd with
  | rest hh hc =>
    refine .of_live (fun c hmem => ?_) fun h heap hheap => ?_
    · rw [hh]
      exact ha.known c (hc ▸ hmem)
    · rw [(chargedTo_congr hc h).1, (chargedTo_congr hc h).2]
      exact ha.live (hh ▸ hheap)
  | openHeap config hh hc =>
    refine .of_live (fun c hmem => ?_) fun h heap hheap => ?_
    · rw [hh, Array.size_push]
      exact (ha.known c (hc ▸ hmem)).trans (Nat.lt_succ_self _)
    · rw [(chargedTo_congr hc h).1, (chargedTo_congr hc h).2]
      rw [hh, Array.getElem?_push] at hheap
      split_ifs at hheap with hnew
      · obtain rfl := Option.some.inj hheap
        rw [hnew, ha.chargedTo_new.1, ha.chargedTo_new.2]
        exact ⟨rfl, rfl⟩
      · exact ha.live hheap
  | note k r hr hh hc =>
    refine .of_live (fun c hmem => ?_) fun h heap hheap => ?_
    · rw [hh, Array.size_modify]
      exact ha.known c (hc ▸ hmem)
    · obtain ⟨old, hold, rfl⟩ := getElem?_heaps_modify hh hheap
      rw [(chargedTo_congr hc h).1,
        (chargedTo_congr hc h).2, ← (ha.live hold).1, ← (ha.live hold).2]
      split_ifs
      · exact live_obey_note hr
      · exact ⟨rfl, rfl⟩
  | settle owner k b keep ht hh hc =>
    obtain rfl := ht trivial
    refine .of_live (fun c hmem => ?_) fun h heap hheap => ?_
    · rw [hh, Array.size_modify]
      exact ha.known c (by rw [hc]; exact Multiset.mem_add.mpr (.inr hmem))
    · obtain ⟨old, hold, rfl⟩ := getElem?_heaps_modify hh hheap
      obtain ⟨hblocks, hbytes⟩ := ha.live hold
      rw [(chargedTo_add hc h).1] at hblocks
      rw [(chargedTo_add hc h).2] at hbytes
      split_ifs at hblocks hbytes ⊢ with howner
      · -- what comes back is no longer charged
        rw [(live_obey_release b keep).1, (live_obey_release b keep).2]
        rw [Extent.size_extent] at hbytes
        omega
      · exact ⟨hblocks, hbytes⟩
  | grant k b payload n ht _ hh hc =>
    refine .of_live (fun c hmem => ?_) fun h heap hheap => ?_
    · rw [hh, Array.size_modify]
      rw [hc, Multiset.singleton_add, Multiset.mem_cons] at hmem
      obtain rfl | hmem := hmem
      · exact ht trivial
      · exact ha.known c hmem
    · obtain ⟨old, hold, rfl⟩ := getElem?_heaps_modify hh hheap
      rw [(chargedTo_add hc h).1, (chargedTo_add hc h).2, ← (ha.live hold).1, ← (ha.live hold).2,
        Extent.size_extent]
      split_ifs <;> exact ⟨rfl, rfl⟩

theorem Accounted.deals (ha : w.Accounted) (hd : Deals True w v) : v.Accounted := by
  induction hd with
  | refl => exact ha
  | tail _ hd ih => exact ih.deal hd

/-! ### Tidy runs -/

/-- Some tidy actions, one after the other, lead from `w` to `v`. -/
inductive ReachesTidily (w : World) : World → Prop where
  | refl : ReachesTidily w w
  | step {v : World} (a : Action) :
    ReachesTidily w v → a.isTidy v = true → ReachesTidily w (a.run v)

theorem ReachesTidily.reaches (h : w.ReachesTidily v) : w.Reaches v := by
  induction h with
  | refl => exact .refl
  | step a _ _ ih => exact .step a ih

theorem ReachesTidily.trans {u : World} (h : u.ReachesTidily v) (k : v.ReachesTidily w) :
    u.ReachesTidily w := by
  induction k with
  | refl => exact h
  | step a _ ht ih => exact .step a ih ht

/-- Whether all actions of a run are tidy. -/
def allTidy (w : World) : List Action → Bool
  | [] => true
  | a :: as => a.isTidy w && (a.run w).allTidy as

theorem reachesTidily_foldl {as : List Action} (h : w.allTidy as = true) :
    w.ReachesTidily (as.foldl Action.run w) := by
  induction as generalizing w with
  | nil => exact .refl
  | cons a as ih =>
    obtain ⟨ha, has⟩ := (Bool.and_eq_true_iff).mp h
    exact (ReachesTidily.step a .refl ha).trans (ih has)

theorem accounted_start (grant : Nat) : (start grant).Accounted where
  known c hc := absurd hc (Multiset.notMem_zero c)
  blocks h heap hh := by
    obtain rfl : Heap.fresh .standard = heap := by
      cases h <;> simp [start] at hh
      exact hh
    rfl
  bytes h heap hh := by
    obtain rfl : Heap.fresh .standard = heap := by
      cases h <;> simp [start] at hh
      exact hh
    rfl

theorem Accounted.run (ha : w.Accounted) {a : Action} (ht : a.isTidy w = true) :
    (a.run w).Accounted :=
  ha.deals ((deals_run a).mono fun _ => ht)

theorem ReachesTidily.accounted {grant : Nat} (h : (start grant).ReachesTidily w) :
    w.Accounted := by
  induction h with
  | refl => exact accounted_start grant
  | step a _ ht ih => exact ih.run ht

end World

end Custody

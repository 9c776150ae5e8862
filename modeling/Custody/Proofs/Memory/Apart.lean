import Custody.Proofs.Memory.Deals
import Custody.Proofs.Memory.Forms

/-! Blocks stay apart. The arena grants every block beyond all earlier ones, and no
deal puts one block in two places; so in every reachable world the ranges of all
blocks are apart from each other. -/

namespace Custody

/-! ### The arena -/

/-- A block is granted beyond all that were granted before, and before all to come. -/
theorem Arena.extent_of_allocate {a a' : Arena} {payload : Layout} {n : Nat} {b : Block}
    (h : a.allocate payload n = .ok (b, a')) :
    a.next ≤ b.extent.first ∧ b.extent.past < a'.next := by
  unfold allocate at h
  cases hl : Block.around payload with
  | none => simp [hl] at h
  | some whole =>
    obtain ⟨whole, offset⟩ := whole
    simp only [hl] at h
    cases hp : a.place whole with
    | none => simp [hp] at h
    | some placed =>
      obtain ⟨base, a''⟩ := placed
      simp only [hp] at h
      obtain ⟨rfl, rfl⟩ := Prod.mk.inj (Except.ok.inj h)
      unfold place at hp
      split_ifs at hp
      obtain ⟨rfl, rfl⟩ := Prod.mk.inj (Option.some.inj hp)
      exact ⟨le_roundUp _ _, Nat.lt_add_of_pos_right (by decide)⟩

/-! ### Deals -/

namespace World

open Extent Relation

variable {tidy : Prop} {v w : World}

theorem ofHeap_note (h : Heap) {r : Heap.Request} (hr : r.IsNote) :
    ofHeap (h.obey r) ≤ ofHeap h := by
  cases r with
  | allocated | release => cases hr
  | registered | invalidated => exact le_rfl
  | reclaim => exact Multiset.zero_le _
  | setDetecting on =>
    simp only [Heap.obey, Heap.setDetecting, Quarantine.setDetecting]
    split_ifs <;> exact le_rfl

theorem tally_modifyHeap_le {f : Heap → Heap} {x : Multiset Extent}
    (hf : ∀ h, ofHeap (f h) ≤ x + ofHeap h) (h : HeapId) :
    tally ofHeap (w.heaps.modify h f).toList ≤ x + tally ofHeap w.heaps.toList := by
  rw [Array.toList_modify]
  exact tally_modify_le hf

/-- No memory is gained by a deal, but for a block that the arena grants. -/
theorem Deal.extents_le (h : Deal tidy w v) :
    (v.arena = w.arena ∧ v.extents ≤ w.extents) ∨
      ∃ b payload n, w.arena.allocate payload n = .ok (b, v.arena) ∧
        v.extents ≤ {b.extent} + w.extents := by
  simp only [extents_eq]
  cases h with
  | rest hh hc ha => exact .inl ⟨ha, by rw [hh, hc]⟩
  | openHeap c hh hc ha =>
    have hfresh : ofHeap (.fresh c) = 0 := rfl
    refine .inl ⟨ha, le_of_eq ?_⟩
    rw [hh, hc, Array.toList_push, tally_append, tally_cons, tally_nil, hfresh, add_zero, add_zero]
  | note h r hr hh hc ha =>
    have hle := tally_modifyHeap_le (w := w) (x := 0)
      (fun heap => by simpa using ofHeap_note heap hr) h
    rw [zero_add] at hle
    exact .inl ⟨ha, by rw [hh, hc]; exact add_le_add_right hle _⟩
  | settle owner h b keep _ hh hc ha =>
    have hle := tally_modifyHeap_le (w := w) (ofHeap_release · b keep) h
    refine .inl ⟨ha, ?_⟩
    rw [hh, hc, Multiset.map_add, Multiset.map_singleton]
    calc _ ≤ v.charges.map Charge.extent + ({b.extent} + tally ofHeap w.heaps.toList) :=
          add_le_add_right hle _
      _ = _ := by ac_rfl
  | grant h b payload n _ ha hh hc =>
    have hle := tally_modifyHeap_le (w := w) (f := (·.obey (.allocated b))) (x := 0)
      (fun heap => le_of_eq (zero_add _).symm) h
    rw [zero_add] at hle
    refine .inr ⟨b, payload, n, ha, ?_⟩
    rw [hh, hc, Multiset.map_add, Multiset.map_singleton, add_assoc]
    exact add_le_add_right (add_le_add_right hle _) _

/-- Blocks have no address in common, and lie below what the arena grants next. -/
structure Laid (w : World) : Prop where
  apart : ∀ s t, {s, t} ≤ w.extents → s.Apart t
  below : ∀ s ∈ w.extents, s.past < w.arena.next

theorem laid_start (grant : Nat) : (start grant).Laid where
  apart s t h := by
    have hz : ({s, t} : Multiset Extent) = 0 := Multiset.le_zero.mp h
    simp at hz
  below s hs := absurd hs (Multiset.notMem_zero s)

theorem pair_le_add {s t x : Extent} {m : Multiset Extent} (h : {s, t} ≤ {x} + m) :
    {s, t} ≤ m ∨ s = x ∧ t ∈ m ∨ t = x ∧ s ∈ m := by
  rw [Multiset.singleton_add] at h
  by_cases hs : s = x
  · subst hs
    have ht : {t} ≤ m := (Multiset.cons_le_cons_iff s).mp h
    exact .inr (.inl ⟨rfl, Multiset.singleton_le.mp ht⟩)
  · by_cases ht : t = x
    · subst ht
      rw [Multiset.pair_comm] at h
      have hm : {s} ≤ m := (Multiset.cons_le_cons_iff t).mp h
      exact .inr (.inr ⟨rfl, Multiset.singleton_le.mp hm⟩)
    · have hx : x ∉ ({s, t} : Multiset Extent) := by simp [Ne.symm hs, Ne.symm ht]
      exact .inl ((Multiset.le_cons_of_notMem hx).mp h)

theorem Laid.deal (h : w.Laid) (hd : Deal tidy w v) : v.Laid := by
  obtain ⟨ha, hle⟩ | ⟨b, payload, n, ha, hle⟩ := hd.extents_le
  · exact ⟨fun s t hst => h.apart s t (hst.trans hle),
      fun s hs => ha ▸ h.below s (Multiset.mem_of_le hle hs)⟩
  · obtain ⟨hlow, hhigh⟩ := Arena.extent_of_allocate ha
    -- the new block lies beyond all blocks there were
    have hnew : ∀ s ∈ w.extents, s.Apart b.extent := fun s hs =>
      .inl ((h.below s hs).trans_le hlow)
    refine ⟨fun s t hst => ?_, fun s hs => ?_⟩
    · obtain hold | ⟨rfl, ht⟩ | ⟨rfl, hs⟩ := pair_le_add (hst.trans hle)
      · exact h.apart s t hold
      · exact (hnew t ht).symm
      · exact hnew s hs
    · have hs := Multiset.mem_of_le hle hs
      rw [Multiset.singleton_add, Multiset.mem_cons] at hs
      obtain rfl | hs := hs
      · exact hhigh
      · have hb : b.extent.first ≤ b.extent.past := Nat.le_add_right _ _
        have hbelow := h.below s hs
        omega

theorem Laid.deals (h : w.Laid) (hd : Deals tidy w v) : v.Laid := by
  induction hd with
  | refl => exact h
  | tail _ hd ih => exact ih.deal hd

/-! ### Every reachable world -/

theorem Reachable.laid (h : w.Reachable) : w.Laid := by
  obtain ⟨grant, h⟩ := h
  induction h with
  | refl => exact laid_start grant
  | step a _ ih => exact ih.deals (deals_run a)

/-- A block that has not come back has no address in common with a block in quarantine. -/
theorem Laid.apart_charged (h : w.Laid) {c : Charge} {z : Block} {heap : Heap} (hc : c ∈ w.charges)
    (hh : heap ∈ w.heaps) (hz : z ∈ heap.quarantine.blocks) : c.extent.Apart z.extent := by
  have hcharge : {c.extent} ≤ w.charges.map Charge.extent :=
    Multiset.singleton_le.mpr (Multiset.mem_map_of_mem _ hc)
  have hheap : {z.extent} ≤ tally ofHeap w.heaps.toList := by
    rw [Multiset.singleton_le, mem_tally]
    exact ⟨heap, Array.mem_toList_iff.mpr hh, List.mem_map_of_mem hz⟩
  refine h.apart _ _ ?_
  rw [extents_eq]
  exact add_le_add hcharge hheap

theorem mem_charges_of_record {r : RecordId} {rec : Record} {b : Block}
    (hr : w.records[r]? = some rec) (hb : rec.block = some b) :
    ⟨rec.heap, b.extent⟩ ∈ w.charges := by
  have hrec : ⟨rec.heap, b.extent⟩ ∈ tally Charge.ofRecord w.records.toList :=
    mem_tally.mpr ⟨rec, Array.mem_toList_iff.mpr (Array.mem_of_getElem? hr), by
      simp [Charge.ofRecord, ofRecord, hb]⟩
  simp [charges, hrec]

theorem Laid.apart_kept (h : w.Laid) {r : RecordId} {rec : Record} {b z : Block} {heap : Heap}
    (hr : w.records[r]? = some rec) (hb : rec.block = some b) (hh : heap ∈ w.heaps)
    (hz : z ∈ heap.quarantine.blocks) : b.Apart z :=
  h.apart_charged (mem_charges_of_record hr hb) hh hz

/-- The blocks of two records have no address in common. -/
theorem Laid.apart_record (h : w.Laid) {r q : RecordId} {rec other : Record} {b c : Block}
    (hr : w.records[r]? = some rec) (hb : rec.block = some b) (hq : w.records[q]? = some other)
    (hc : other.block = some c) (hne : r ≠ q) : b.Apart c := by
  have hle := add_le_tally (f := ofRecord) (l := w.records.toList) (by simpa using hr)
    (by simpa using hq) hne
  simp only [ofRecord, hb, hc, ofBlock?_some] at hle
  refine h.apart _ _ ?_
  calc ({b.extent, c.extent} : Multiset Extent)
      ≤ tally ofRecord w.records.toList := hle
    _ ≤ tally ofRecord w.records.toList + (tally ofLoose w.blocks.toList + tally ofTask w.pending +
        tally ofHeap w.heaps.toList) := Multiset.le_add_right _ _
    _ = w.extents := by
      rw [extents]
      ac_rfl

end World

end Custody

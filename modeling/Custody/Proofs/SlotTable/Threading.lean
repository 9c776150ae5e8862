import Custody.Proofs.SlotTable.Exhaustion

/-! The free list goes through all the free slots. Of the slots of a table, the ones never
used included, the links from the head visit just the free ones, each once, and then end;
so no free slot is lost, when the table grows either, and the slot at the head is there to
be taken. This holds on every run, however many slots are retired, and whatever growth the
allocator grants from one request to the next. Main result: `free_list_complete`. -/

namespace Custody

namespace SlotTable

open Registry (Request)

variable {t u : SlotTable}

/-! ### All slots -/

/-- Slots that were never used, from `start` on, each linked to the next. -/
def freshSlots (start stop : Nat) : List Slot :=
  (List.range' start (stop - start)).map fun i =>
    .free (if i + 1 < stop then some (i + 1) else none) 0

/-- Every slot of the table. -/
def slots (t : SlotTable) : List Slot := t.stored.toList ++ freshSlots t.stored.size t.capacity

theorem isFree_of_mem_freshSlots {start stop : Nat} {s : Slot} (h : s ∈ freshSlots start stop) :
    s.isFree = true := by
  obtain ⟨i, -, rfl⟩ := List.mem_map.mp h
  rfl

theorem getElem?_slots (i : Nat) : t.slots[i]? = t.slot? i := by
  by_cases hi : i < t.stored.size
  · rw [slot?_of_lt hi, slots, List.getElem?_append_left (by simpa using hi), Array.getElem?_toList]
  · rw [slots, List.getElem?_append_right (by simpa using hi), Array.length_toList, freshSlots,
      List.getElem?_map]
    by_cases hc : i < t.capacity
    · rw [slot?_of_le (Nat.not_lt.mp hi) hc, List.getElem?_range' (by omega), Nat.one_mul,
        Nat.add_sub_cancel' (Nat.not_lt.mp hi)]
      rfl
    · rw [List.getElem?_eq_none (by simp; omega)]
      simp [slot?, hi, hc]

theorem exists_slot?_of_writable {i : Nat} (hi : t.Writable i) : ∃ slot, t.slot? i = some slot := by
  rcases hi with hi | ⟨rfl, hc⟩
  · exact ⟨_, (slot?_of_lt hi).trans (Array.getElem?_eq_getElem hi)⟩
  · exact ⟨_, slot?_of_le le_rfl hc⟩

/-- Writing a slot changes that one alone. -/
theorem slots_write {i : Nat} (hi : t.Writable i) (s : Slot) :
    (t.write i s).slots = t.slots.set i s := by
  refine List.ext_getElem? fun j => ?_
  rw [getElem?_slots, slot?_write hi, List.getElem?_set, getElem?_slots]
  by_cases hj : j = i
  · obtain ⟨slot, hslot⟩ := exists_slot?_of_writable hi
    rw [← getElem?_slots] at hslot
    rw [if_pos hj, if_pos hj.symm, if_pos (List.getElem?_eq_some_iff.mp hslot).1]
  · rw [if_neg hj, if_neg (Ne.symm hj)]

/-- Growth adds slots at the end and leaves the others as they are. -/
theorem Sound.slots_grow (h : t.Sound) (hf : t.firstFree = none) (hu : t.grow = .ok u) :
    u.slots = t.slots ++ freshSlots t.capacity u.capacity := by
  have hs := h.size_eq_capacity hf
  unfold SlotTable.grow at hu
  split_ifs at hu
  cases hu
  simp [slots, freshSlots, hs]

/-! ### Completeness -/

/-- The free list and the count tell what the slots are. -/
structure Complete (t : SlotTable) : Prop where
  whole : t.slots.length = t.capacity
  /-- The links from the head visit the free slots, each once, and end. -/
  visited : ∃ path : List Nat, t.Linked t.firstFree path ∧ path.Nodup ∧
    ∀ i, i ∈ path ↔ ∃ next generation, t.slots[i]? = some (.free next generation)
  counted : t.count = t.slots.countP Slot.isUsed
  exhausted : t.firstFree = none ↔ ∀ slot ∈ t.slots, slot.isFree = false

theorem Sound.visited (h : t.Sound) : ∃ path : List Nat, t.Linked t.firstFree path ∧ path.Nodup ∧
    ∀ i, i ∈ path ↔ ∃ next generation, t.slots[i]? = some (.free next generation) := by
  obtain ⟨recycled, hl, hn, hm⟩ := h.threaded
  have hstored : ∀ i ∈ recycled, i < t.stored.size := fun i hi => by
    obtain ⟨_, _, hs⟩ := (hm i).mp hi
    exact (Array.getElem?_eq_some_iff.mp hs).1
  refine ⟨recycled ++ t.unused, hl, ?_, fun i => ⟨fun hi => ?_, ?_⟩⟩
  · refine List.nodup_append.mpr ⟨hn, List.nodup_range', fun i hi j hj hij => ?_⟩
    have hlt := hstored i hi
    have hle := ((mem_unused h.fits).mp hj).1
    omega
  · simpa only [getElem?_slots] using hl.free_of_mem hi
  · rintro ⟨next, generation, hs⟩
    rw [getElem?_slots] at hs
    rw [List.mem_append, hm, mem_unused h.fits]
    by_cases hi : i < t.stored.size
    · rw [slot?_of_lt hi] at hs
      exact .inl ⟨next, generation, hs⟩
    · exact .inr ⟨Nat.not_lt.mp hi, lt_capacity_of_slot? h.fits hs⟩

theorem Sound.counted_slots (h : t.Sound) : t.count = t.slots.countP Slot.isUsed := by
  have hfresh : (freshSlots t.stored.size t.capacity).countP Slot.isUsed = 0 := by
    refine List.countP_eq_zero.mpr fun slot hs => ?_
    have hfree := isFree_of_mem_freshSlots hs
    cases slot <;> simp_all [Slot.isFree, Slot.isUsed]
  rw [h.counted, slots, List.countP_append, hfresh, Nat.add_zero]

theorem Sound.complete (h : t.Sound) : t.Complete where
  whole := by
    have := h.fits
    simp [slots, freshSlots]
    omega
  visited := h.visited
  counted := h.counted_slots
  exhausted := by
    obtain ⟨path, hl, -, hm⟩ := h.visited
    constructor
    · intro hf slot hs
      obtain ⟨i, hi⟩ := List.mem_iff_getElem?.mp hs
      cases slot with
      | used | retired => rfl
      | free next generation =>
        have hmem := (hm i).mpr ⟨next, generation, hi⟩
        cases path with
        | nil => cases hmem
        | cons j path => simp [hf, Linked] at hl
    · intro hnone
      cases path with
      | nil => exact hl
      | cons i path =>
        obtain ⟨next, generation, hi⟩ := (hm i).mp List.mem_cons_self
        cases hnone _ (List.mem_of_getElem? hi)

/-! ### Requests -/

/-- A table that grows has no free slot to lose. -/
theorem Sound.reserve_outcome (h : t.Sound) (hu : t.reserve = .ok u) :
    u = t ∨ t.firstFree = none ∧ (∀ slot ∈ t.slots, slot.isFree = false) ∧ t.grow = .ok u ∧
      u.slots = t.slots ++ freshSlots t.capacity u.capacity := by
  unfold SlotTable.reserve at hu
  split_ifs at hu with hf
  · have hf : t.firstFree = none := Option.isNone_iff_eq_none.mp hf
    exact .inr ⟨hf, h.complete.exhausted.mp hf, hu, h.slots_grow hf hu⟩
  · cases hu
    exact .inl rfl

/-- An observer is refused if the table has no free slot and does not grow; otherwise it
gets the slot at the head of the list, which is free, and the list goes on from there. -/
theorem Sound.insert_outcome (h : t.Sound) (s : Standing) :
    (∃ e, t.firstFree = none ∧ t.grow = .error e ∧ t.insert s = .error e) ∨
    ∃ u i next generation v, t.reserve = .ok u ∧ u.firstFree = some i ∧
      u.slots[i]? = some (.free next generation) ∧
      t.insert s = .ok (⟨UInt32.ofNat i, generation⟩, v) ∧
      v.slots = u.slots.set i (.used generation s) ∧ v.firstFree = next ∧
      v.count = u.count + 1 := by
  rcases h.nextTicket_cases with ⟨e, hr, hn⟩ | ⟨u, k, next, hr, hn, hsound, hf, hs⟩
  · refine .inl ⟨e, ?_, ?_, insert_eq_error.mpr hn⟩
    · exact (reserve_eq_error.mp hr).2.1
    · rw [← hr, SlotTable.reserve, (reserve_eq_error.mp hr).2.1]
      rfl
  · have hinsert : t.insert s = .ok (k, u.takeFree s) := by
      simp [SlotTable.insert, hn, Except.map, SlotTable.enrol, hr]
    have hindex : (⟨UInt32.ofNat k.index.toNat, k.generation⟩ : Ticket) = k := by
      rw [UInt32.ofNat_toNat]
    refine .inr ⟨u, k.index.toNat, next, k.generation, u.takeFree s, hr, hf, ?_, ?_, ?_⟩
    · rwa [getElem?_slots]
    · rw [hinsert, hindex]
    · rw [takeFree_of_free hf hs]
      exact ⟨slots_write (hsound.head hf).1 _, rfl, rfl⟩

/-- An observer that leaves was counted. Its slot becomes the head of the free list, or is
retired. -/
theorem Sound.remove_outcome (h : t.Sound) {k : Ticket} (hk : (t.remove k).1 = true) :
    0 < t.count ∧ (t.remove k).2.count + 1 = t.count ∧
      (t.remove k).2.slots = t.slots.set k.index.toNat (t.released k.generation) ∧
      (t.remove k).2.firstFree =
        if k.generation + 1 = 0 then t.firstFree else some k.index.toNat := by
  cases hfind : t.find? k with
  | none => simp [remove_of_find?_eq_none hfind] at hk
  | some s =>
    have hs := slot?_of_find? hfind
    have hw : t.Writable k.index.toNat := .inl (lt_size_of_slot? hs rfl)
    have hpos : 0 < t.count := by
      rw [← getElem?_slots] at hs
      rw [h.counted_slots]
      exact List.countP_pos_iff.mpr ⟨_, List.mem_of_getElem? hs, rfl⟩
    rw [remove_of_find? hfind]
    exact ⟨hpos, Nat.sub_add_cancel hpos, slots_write hw _, rfl⟩

/-! ### Runs -/

/-- A table is asked for something, or the allocator comes to grant more or less. -/
inductive Turn where
  | ask (r : Request)
  | regrant (bytes : Nat)

def undergo (t : SlotTable) : Turn → SlotTable
  | .ask r => (t.obey r).2
  | .regrant bytes => { t with grant := bytes }

def undergoAll (t : SlotTable) (ts : List Turn) : SlotTable := ts.foldl undergo t

theorem Sound.regrant (h : t.Sound) (bytes : Nat) : Sound { t with grant := bytes } where
  fits := h.fits
  bounded := h.bounded
  threaded := by
    obtain ⟨recycled, hl, hn, hm⟩ := h.threaded
    exact ⟨recycled, Linked.congr (t := t) (fun _ _ => rfl) hl, hn, hm⟩
  counted := h.counted

theorem Sound.undergo (h : t.Sound) (turn : Turn) : (t.undergo turn).Sound := by
  cases turn with
  | ask r => exact h.obey r
  | regrant bytes => exact h.regrant bytes

theorem Sound.undergoAll (h : t.Sound) (ts : List Turn) : (t.undergoAll ts).Sound := by
  induction ts generalizing t with
  | nil => exact h
  | cons turn ts ih => exact ih (h.undergo turn)

/-- On every run, the links from the head of the free list visit the free slots, each once,
and end; the count is the number of used slots, and the list is empty exactly if no slot
is free. The table grows only then, by free slots that all come at its end, and the list
goes through these afterwards. Whenever an observer is not refused for want of growth, the
head of the list is a free slot, which it gets. One that leaves was counted, and its slot
becomes the head of the list unless it is retired. -/
theorem free_list_complete (growth : UInt64) (cap : UInt32) (grant : Nat) (ts : List Turn) :
    let t := (empty growth cap grant).undergoAll ts
    t.Complete ∧
    (∀ u, t.reserve = .ok u → u.Complete ∧
      (u = t ∨ t.firstFree = none ∧ (∀ slot ∈ t.slots, slot.isFree = false) ∧ t.grow = .ok u ∧
        u.slots = t.slots ++ freshSlots t.capacity u.capacity)) ∧
    (∀ s, (∃ e, t.firstFree = none ∧ t.grow = .error e ∧ t.insert s = .error e) ∨
      ∃ u i next generation v, t.reserve = .ok u ∧ u.firstFree = some i ∧
        u.slots[i]? = some (.free next generation) ∧
        t.insert s = .ok (⟨UInt32.ofNat i, generation⟩, v) ∧
        v.slots = u.slots.set i (.used generation s) ∧ v.firstFree = next ∧ v.count = u.count + 1) ∧
    ∀ k, (t.remove k).1 = true → 0 < t.count ∧ (t.remove k).2.count + 1 = t.count ∧
      (t.remove k).2.slots = t.slots.set k.index.toNat (t.released k.generation) ∧
      (t.remove k).2.firstFree =
        if k.generation + 1 = 0 then t.firstFree else some k.index.toNat := by
  intro t
  have h : t.Sound := (sound_empty growth cap grant).undergoAll ts
  exact ⟨h.complete, fun u hu => ⟨(h.reserve hu).complete, h.reserve_outcome hu⟩, h.insert_outcome,
    fun k hk => h.remove_outcome hk⟩

end SlotTable

end Custody

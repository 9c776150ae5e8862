import Custody.SlotTable
import Mathlib.Data.List.Nodup
import Mathlib.Data.List.Range

/-! The free list of a slot table. From the head, the links lead through the
recycled slots, the latest first, and then through the slots that were never used,
in order. `Sound` says so, and that the count is the number of used slots; every
operation keeps it. -/

namespace Custody

namespace Slot

def isUsed : Slot → Bool
  | .used .. => true
  | _ => false

def isFree : Slot → Bool
  | .free .. => true
  | _ => false

end Slot

namespace SlotTable

variable {t : SlotTable}

/-! ### Slots -/

theorem slot?_of_lt {i : Nat} (h : i < t.stored.size) : t.slot? i = t.stored[i]? := by
  simp [slot?, h]

theorem slot?_of_le {i : Nat} (h : t.stored.size ≤ i) (hc : i < t.capacity) :
    t.slot? i = some (.free (if i + 1 < t.capacity then some (i + 1) else none) 0) := by
  simp [slot?, hc, show ¬ i < t.stored.size by omega]

theorem lt_capacity_of_slot? {i : Nat} {s : Slot} (hf : t.stored.size ≤ t.capacity)
    (h : t.slot? i = some s) : i < t.capacity := by
  simp only [slot?] at h
  split_ifs at h <;> omega

/-- A slot that is not free was used before. -/
theorem lt_size_of_slot? {i : Nat} {s : Slot} (h : t.slot? i = some s) (hs : s.isFree = false) :
    i < t.stored.size := by
  by_contra hi
  have hc : i < t.capacity := by
    by_contra hc
    simp [slot?, hi, hc] at h
  rw [slot?_of_le (by omega) hc] at h
  rw [← Option.some.inj h] at hs
  simp [Slot.isFree] at hs

theorem countP_stored_eq_zero {p : Slot → Bool}
    (h : ∀ (i : Nat) (slot : Slot), t.stored[i]? = some slot → p slot = false) :
    t.stored.toList.countP p = 0 := by
  refine List.countP_eq_zero.mpr fun slot hs hp => ?_
  obtain ⟨i, hi⟩ := List.mem_iff_getElem?.mp hs
  rw [Array.getElem?_toList] at hi
  simp [h i slot hi] at hp

/-- A slot may be written if it is stored or is the first that was never used. -/
def Writable (t : SlotTable) (i : Nat) : Prop :=
  i < t.stored.size ∨ i = t.stored.size ∧ i < t.capacity

@[simp] theorem write_capacity (i : Nat) (s : Slot) : (t.write i s).capacity = t.capacity := by
  unfold write; split_ifs <;> rfl

@[simp] theorem write_cap (i : Nat) (s : Slot) : (t.write i s).cap = t.cap := by
  unfold write; split_ifs <;> rfl

theorem write_stored_of_lt {i : Nat} (h : i < t.stored.size) (s : Slot) :
    (t.write i s).stored = t.stored.setIfInBounds i s := by
  simp [write, h]

theorem write_stored_size (s : Slot) : (t.write t.stored.size s).stored = t.stored.push s := by
  simp [write]

theorem slot?_write {i : Nat} (hi : t.Writable i) (s : Slot) (j : Nat) :
    (t.write i s).slot? j = if j = i then some s else t.slot? j := by
  rcases hi with hi | ⟨rfl, hc⟩
  · simp only [slot?, write_capacity, write_stored_of_lt hi, Array.size_setIfInBounds,
      Array.getElem?_setIfInBounds]
    split_ifs <;> first | rfl | omega
  · simp only [slot?, write_capacity, write_stored_size, Array.size_push, Array.getElem?_push]
    split_ifs <;> first | rfl | omega

/-! ### Links -/

/-- The links of free slots lead from `head` through `path`, and end there. -/
def Linked (t : SlotTable) : Option Nat → List Nat → Prop
  | head, [] => head = none
  | head, i :: path =>
    head = some i ∧
      ∃ next generation, t.slot? i = some (.free next generation) ∧ t.Linked next path

/-- Links are read off the slots on the path alone. -/
theorem Linked.congr {u : SlotTable} {path : List Nat} {head : Option Nat}
    (h : ∀ i ∈ path, u.slot? i = t.slot? i) (hl : t.Linked head path) : u.Linked head path := by
  induction path generalizing head with
  | nil => exact hl
  | cons i path ih =>
    obtain ⟨rfl, next, generation, hs, hn⟩ := hl
    refine ⟨rfl, next, generation, ?_, ih (fun j hj => h j (by simp [hj])) hn⟩
    rw [h i (by simp), hs]

theorem Linked.free_of_mem {path : List Nat} {head : Option Nat} (hl : t.Linked head path)
    {i : Nat} (hi : i ∈ path) : ∃ next generation, t.slot? i = some (.free next generation) := by
  induction path generalizing head with
  | nil => simp at hi
  | cons j path ih =>
    obtain ⟨-, next, generation, hs, hn⟩ := hl
    rcases List.mem_cons.mp hi with rfl | hi
    · exact ⟨next, generation, hs⟩
    · exact ih hn hi

/-- The slots that were never used are linked in order. -/
theorem linked_fresh (n m : Nat) (hn : t.stored.size ≤ n) (hm : n + m = t.capacity) :
    t.Linked (if n < t.capacity then some n else none) (List.range' n m) := by
  induction m generalizing n with
  | zero => simp [Linked, show ¬ n < t.capacity by omega]
  | succ m ih =>
    rw [List.range'_succ, if_pos (by omega)]
    exact ⟨rfl, _, 0, slot?_of_le hn (by omega), ih (n + 1) (by omega) (by omega)⟩

/-! ### The invariant -/

/-- The slots that were never used. -/
def unused (t : SlotTable) : List Nat := List.range' t.stored.size (t.capacity - t.stored.size)

theorem mem_unused {i : Nat} (hf : t.stored.size ≤ t.capacity) :
    i ∈ t.unused ↔ t.stored.size ≤ i ∧ i < t.capacity := by
  simp only [unused, List.mem_range'_1]
  omega

structure Sound (t : SlotTable) : Prop where
  fits : t.stored.size ≤ t.capacity
  bounded : t.capacity ≤ max initial t.cap.toNat
  /-- The free slots that were used before, in the order of the list. -/
  threaded : ∃ recycled : List Nat,
    t.Linked t.firstFree (recycled ++ t.unused) ∧ recycled.Nodup ∧
      ∀ i, i ∈ recycled ↔ ∃ next generation, t.stored[i]? = some (.free next generation)
  counted : t.count = t.stored.toList.countP Slot.isUsed

theorem Sound.lt_size {i : Nat} (h : t.Sound) (hi : i < t.capacity) : i < UInt32.size := by
  have := h.bounded
  have := t.cap.toNat_lt
  simp only [initial] at *
  simp only [UInt32.size]
  omega

theorem Sound.slot_lt {i : Nat} {s : Slot} (h : t.Sound) (hs : t.slot? i = some s) :
    i < UInt32.size := h.lt_size (lt_capacity_of_slot? h.fits hs)

theorem sound_empty (growth : UInt64) (cap : UInt32) (grant : Nat) :
    (empty growth cap grant).Sound where
  fits := by simp [empty]
  bounded := le_max_left _ _
  threaded := by
    have hl := linked_fresh (t := empty growth cap grant) 0 initial (by simp [empty])
      (by simp [empty])
    exact ⟨[], by simpa [empty, unused, initial] using hl, List.nodup_nil, by simp [empty]⟩
  counted := by simp [empty]

/-! ### Writing a slot -/

theorem unused_write_of_lt {i : Nat} (h : i < t.stored.size) (s : Slot) :
    (t.write i s).unused = t.unused := by
  simp [unused, write_stored_of_lt h]

theorem unused_eq_cons (hc : t.stored.size < t.capacity) (s : Slot) :
    t.unused = t.stored.size :: (t.write t.stored.size s).unused := by
  simp only [unused, write_stored_size, Array.size_push, write_capacity]
  rw [← List.range'_succ]
  congr 1
  omega

theorem size_write_le {i : Nat} (hf : t.stored.size ≤ t.capacity) (hi : t.Writable i) (s : Slot) :
    (t.write i s).stored.size ≤ t.capacity := by
  rcases hi with hi | ⟨rfl, hc⟩
  · rw [write_stored_of_lt hi, Array.size_setIfInBounds]
    exact hf
  · rw [write_stored_size, Array.size_push]
    omega

/-- Writing over a slot changes the number of used slots by what the slot was and
is. -/
theorem countP_write {i : Nat} {old : Slot} (hi : t.Writable i) (ho : t.slot? i = some old)
    (s : Slot) :
    (t.write i s).stored.toList.countP Slot.isUsed + (if old.isUsed then 1 else 0) =
      t.stored.toList.countP Slot.isUsed + if s.isUsed then 1 else 0 := by
  rcases hi with hi | ⟨rfl, hc⟩
  · rw [slot?_of_lt hi] at ho
    have hold : t.stored.toList[i] = old := by
      simpa using (Array.getElem?_eq_some_iff.mp ho).2
    have hpos : old.isUsed = true → 0 < t.stored.toList.countP Slot.isUsed := fun hu =>
      List.countP_pos_iff.mpr ⟨old, hold ▸ List.getElem_mem _, hu⟩
    rw [write_stored_of_lt hi, Array.toList_setIfInBounds,
      List.countP_set (by simpa using hi), hold]
    split_ifs with h1 <;> simp_all
  · rw [slot?_of_le le_rfl hc] at ho
    cases ho
    simp [write_stored_size, List.countP_append, Slot.isUsed, List.countP_singleton]

theorem stored_write {i : Nat} (hi : t.Writable i) (s : Slot) (j : Nat) :
    (t.write i s).stored[j]? = if j = i then some s else t.stored[j]? := by
  rcases hi with hi | ⟨rfl, -⟩
  · rw [write_stored_of_lt hi, Array.getElem?_setIfInBounds]
    split_ifs <;> first | rfl | omega
  · rw [write_stored_size, Array.getElem?_push]

/-! ### Taking the first free slot -/

/-- The head of the free list is a free slot that may be written. Once it is written,
the list goes on with the other free slots. -/
theorem Sound.uncons (h : t.Sound) {i : Nat} (hi : t.firstFree = some i) :
    ∃ next generation recycled, t.Writable i ∧ t.slot? i = some (.free next generation) ∧
      recycled.Nodup ∧
      (∀ j, j ∈ recycled ↔
        j ≠ i ∧ ∃ next generation, t.stored[j]? = some (.free next generation)) ∧
      ∀ s, t.Linked next (recycled ++ (t.write i s).unused) ∧
        i ∉ recycled ++ (t.write i s).unused := by
  obtain ⟨recycled, hl, hn, hm⟩ := h.threaded
  rw [hi] at hl
  cases recycled with
  | nil =>
    have hc : t.stored.size < t.capacity := by
      by_contra hc
      simp [unused, show t.capacity - t.stored.size = 0 by omega, Linked] at hl
    rw [List.nil_append, unused_eq_cons hc .retired] at hl
    obtain ⟨he, next, generation, hs, hr⟩ := hl
    cases he
    refine ⟨next, generation, [], .inr ⟨rfl, hc⟩, hs, List.nodup_nil, ?_, fun s => ⟨?_, ?_⟩⟩
    · intro j
      have hj := hm j
      simp only [List.not_mem_nil, false_iff] at hj ⊢
      exact fun hf => hj hf.2
    · simpa [unused, write_stored_size] using hr
    · simp [unused, write_stored_size]
  | cons j rest =>
    obtain ⟨he, next, generation, hs, hr⟩ := hl
    cases he
    obtain ⟨_, _, hj⟩ := (hm i).mp List.mem_cons_self
    obtain ⟨hnot, hn⟩ := List.nodup_cons.mp hn
    have hlt := (Array.getElem?_eq_some_iff.mp hj).1
    refine ⟨next, generation, rest, .inl hlt, hs, hn, ?_, fun s => ⟨?_, ?_⟩⟩
    · intro j
      rw [← hm j, List.mem_cons]
      constructor
      · intro hj
        exact ⟨fun he => hnot (he ▸ hj), .inr hj⟩
      · rintro ⟨hne, he | hj⟩
        · exact absurd he hne
        · exact hj
    · rwa [unused_write_of_lt hlt]
    · rw [unused_write_of_lt hlt, List.mem_append, mem_unused h.fits]
      rintro (hr | hr)
      · exact hnot hr
      · omega

theorem Sound.head (h : t.Sound) {i : Nat} (hi : t.firstFree = some i) :
    t.Writable i ∧ ∃ next generation, t.slot? i = some (.free next generation) := by
  obtain ⟨next, generation, -, hw, hs, -⟩ := h.uncons hi
  exact ⟨hw, next, generation, hs⟩

theorem takeFree_of_free {i : Nat} {next : Option Nat} {generation : UInt32}
    (hi : t.firstFree = some i) (hs : t.slot? i = some (.free next generation)) (s : Standing) :
    t.takeFree s =
      { t.write i (.used generation s) with firstFree := next, count := t.count + 1 } := by
  simp only [takeFree, hi, hs]
  unfold write
  split_ifs <;> rfl

theorem Sound.takeFree (h : t.Sound) (s : Standing) : (t.takeFree s).Sound := by
  cases hi : t.firstFree with
  | none => simpa [SlotTable.takeFree, hi] using h
  | some i =>
    obtain ⟨next, generation, recycled, hw, hs, hn, hm, hr⟩ := h.uncons hi
    obtain ⟨hl, hi'⟩ := hr (.used generation s)
    rw [takeFree_of_free hi hs s]
    refine ⟨?_, ?_, ⟨recycled, ?_, hn, ?_⟩, ?_⟩
    · simpa using size_write_le h.fits hw _
    · simpa using h.bounded
    · refine hl.congr (t := t) fun j hj => ?_
      have hne : j ≠ i := fun he => hi' (he ▸ hj)
      have := slot?_write hw (.used generation s) j
      rwa [if_neg hne] at this
    · intro j
      rw [hm j, stored_write hw]
      by_cases hj : j = i <;> simp [hj]
    · have := countP_write hw hs (.used generation s)
      simpa [Slot.isUsed, h.counted] using this.symm

/-! ### Growth -/

/-- A table whose free list is empty has no unused slots. -/
theorem Sound.size_eq_capacity (h : t.Sound) (hf : t.firstFree = none) :
    t.stored.size = t.capacity := by
  obtain ⟨recycled, hl, -⟩ := h.threaded
  cases hp : recycled ++ t.unused with
  | nil =>
    have hu := (List.append_eq_nil_iff.mp hp).2
    simp only [unused, List.range'_eq_nil_iff] at hu
    have := h.fits
    omega
  | cons i path => simp [hp, hf, Linked] at hl

theorem lt_target : t.capacity < t.cap.toNat → t.capacity < t.target := by
  simp only [target]
  omega

theorem Sound.grow {u : SlotTable} (h : t.Sound) (hf : t.firstFree = none) (hu : t.grow = .ok u) :
    u.Sound := by
  unfold SlotTable.grow at hu
  split_ifs at hu with hc
  cases hu
  have hs := h.size_eq_capacity hf
  have ht : t.capacity < t.target := lt_target (by omega)
  obtain ⟨recycled, hl, hn, hm⟩ := h.threaded
  have hr : recycled = [] := by
    cases recycled with
    | nil => rfl
    | cons i path => simp [hf, Linked] at hl
  refine ⟨by simp; omega, ?_, ⟨[], ?_, List.nodup_nil, by simpa [hr] using hm⟩, h.counted⟩
  · exact (min_le_right _ _).trans (le_max_right _ _)
  · have hfresh := linked_fresh (t := { t with capacity := t.target, firstFree := some t.capacity })
      t.capacity (t.target - t.capacity) (by simp; omega) (by simp; omega)
    simpa [ht, unused, hs] using hfresh

theorem Sound.reserve {u : SlotTable} (h : t.Sound) (hu : t.reserve = .ok u) : u.Sound := by
  unfold SlotTable.reserve at hu
  split_ifs at hu with hf
  · exact h.grow (by simpa using hf) hu
  · cases hu
    exact h

theorem Sound.enrol (h : t.Sound) (s : Standing) : (t.enrol s).Sound := by
  unfold SlotTable.enrol
  cases hu : t.reserve with
  | ok u => exact (h.reserve hu).takeFree s
  | error e => exact h

/-! ### Releasing a slot -/

/-- The slot of a ticket that is found. -/
theorem slot?_of_find? {k : Ticket} {s : Standing} (h : t.find? k = some s) :
    t.slot? k.index.toNat = some (.used k.generation s) := by
  unfold find? at h
  split at h
  · split_ifs at h with hg
    cases h
    rw [← hg]
    assumption
  · cases h

/-- Writing over a used slot leaves the free list as it is. -/
theorem Sound.linked_write (h : t.Sound) {i : Nat} {generation : UInt32} {old : Standing}
    (hs : t.slot? i = some (.used generation old)) (s : Slot) :
    ∃ recycled, i ∉ recycled ∧ recycled.Nodup ∧
      (t.write i s).Linked t.firstFree (recycled ++ (t.write i s).unused) ∧
      ∀ j, j ∈ recycled ↔ ∃ next generation, t.stored[j]? = some (.free next generation) := by
  obtain ⟨recycled, hl, hn, hm⟩ := h.threaded
  have hlt := lt_size_of_slot? hs rfl
  rw [slot?_of_lt hlt] at hs
  have hnot : i ∉ recycled := by
    rw [hm, hs]
    simp
  refine ⟨recycled, hnot, hn, ?_, hm⟩
  rw [unused_write_of_lt hlt]
  refine hl.congr fun j hj => ?_
  have hne : j ≠ i := by
    rintro rfl
    rcases List.mem_append.mp hj with hj | hj
    · exact hnot hj
    · have := (mem_unused h.fits).mp hj
      omega
  rw [slot?_write (.inl hlt), if_neg hne]

/-- What `remove` leaves of the slot of a present ticket. -/
def released (t : SlotTable) (generation : UInt32) : Slot :=
  if generation + 1 = 0 then .retired else .free t.firstFree (generation + 1)

theorem remove_of_find? {k : Ticket} {s : Standing} (h : t.find? k = some s) :
    t.remove k = (true, { t.write k.index.toNat (t.released k.generation) with
      firstFree := if k.generation + 1 = 0 then t.firstFree else some k.index.toNat
      count := t.count - 1 }) := by
  simp only [remove, h, Option.isSome_some, if_true, released, write]
  split_ifs <;> rfl

theorem remove_of_find?_eq_none {k : Ticket} (h : t.find? k = none) : t.remove k = (false, t) := by
  simp [remove, h]

theorem Sound.remove (h : t.Sound) (k : Ticket) : (t.remove k).2.Sound := by
  cases hk : t.find? k with
  | none => rwa [remove_of_find?_eq_none hk]
  | some s =>
    have hs := slot?_of_find? hk
    have hlt := lt_size_of_slot? hs rfl
    have hw : t.Writable k.index.toNat := .inl hlt
    set slot := t.released k.generation with hslot
    obtain ⟨recycled, hnot, hn, hl, hm⟩ := h.linked_write hs slot
    have hcount := countP_write hw hs slot
    have hstored := stored_write hw slot
    rw [remove_of_find? hk, ← hslot]
    refine ⟨?_, by simpa using h.bounded, ?_, ?_⟩
    · simpa using size_write_le h.fits hw _
    · by_cases hg : k.generation + 1 = 0
      · simp only [if_pos hg]
        refine ⟨recycled, Linked.congr (t := t.write _ slot) (fun _ _ => rfl) hl, hn, fun j => ?_⟩
        rw [hm j, hstored]
        by_cases hj : j = k.index.toNat
        · rw [slot?_of_lt hlt] at hs
          simp [hj, hslot, released, hg, hs]
        · simp [hj]
      · simp only [if_neg hg]
        refine ⟨k.index.toNat :: recycled, ⟨rfl, t.firstFree, k.generation + 1, ?_,
          Linked.congr (t := t.write _ slot) (fun _ _ => rfl) hl⟩,
          List.nodup_cons.mpr ⟨hnot, hn⟩, fun j => ?_⟩
        · rw [← show slot = .free t.firstFree (k.generation + 1) by simp [hslot, released, hg]]
          exact (slot?_write hw _ _).trans (if_pos rfl)
        · rw [List.mem_cons, hm j, hstored]
          by_cases hj : j = k.index.toNat <;> simp [hj, hslot, released, hg]
    · have hu : slot.isUsed = false := by
        rw [hslot, released]
        split_ifs <;> rfl
      have hused : (Slot.used k.generation s).isUsed = true := rfl
      simp only [hu, hused, if_true, Bool.false_eq_true, if_false] at hcount
      have := h.counted
      show t.count - 1 = (t.write k.index.toNat slot).stored.toList.countP Slot.isUsed
      omega

/-! ### Changing standings -/

theorem update_eq_self : t.update (fun _ s => s) = t := by
  unfold update
  congr 1
  apply Array.ext_getElem?
  intro i
  rw [Array.getElem?_mapIdx]
  rcases t.stored[i]? with _ | _ | _ | _ <;> rfl

theorem slot?_update (f : Ticket → Standing → Standing) (i : Nat) :
    (t.update f).slot? i = (t.slot? i).map fun
      | .used generation s => .used generation (f ⟨UInt32.ofNat i, generation⟩ s)
      | other => other := by
  have hc : (t.update f).capacity = t.capacity := rfl
  simp only [slot?, hc]
  simp only [update, Array.size_mapIdx, Array.getElem?_mapIdx]
  split_ifs <;> rfl

theorem countP_mapIdx_of_eq {α β : Type} {p : α → Bool} {q : β → Bool} {f : Nat → α → β}
    {l : List α} (h : ∀ i a, q (f i a) = p a) : (l.mapIdx f).countP q = l.countP p := by
  induction l generalizing f with
  | nil => rfl
  | cons a l ih =>
    rw [List.mapIdx_cons, List.countP_cons, List.countP_cons, h, ih fun i => h (i + 1)]

theorem Sound.update (h : t.Sound) (f : Ticket → Standing → Standing) : (t.update f).Sound := by
  obtain ⟨recycled, hl, hn, hm⟩ := h.threaded
  refine ⟨by simpa [SlotTable.update] using h.fits, h.bounded, ⟨recycled, ?_, hn, fun i => ?_⟩, ?_⟩
  · have hu : (t.update f).unused = t.unused := by simp [unused, SlotTable.update]
    rw [hu]
    refine hl.congr fun i hi => ?_
    obtain ⟨next, generation, hs⟩ := hl.free_of_mem hi
    rw [slot?_update, hs]
    rfl
  · rw [hm i]
    simp only [SlotTable.update, Array.getElem?_mapIdx]
    rcases t.stored[i]? with _ | _ | _ | _ <;> simp
  · rw [SlotTable.update, h.counted, Array.toList_mapIdx]
    refine (countP_mapIdx_of_eq fun i slot => ?_).symm
    cases slot <;> rfl

end SlotTable

end Custody

import Custody.Proofs.SlotTable.Registry
import Custody.World.Basic

/-! When a slot table has no room left. It refuses an observer exactly if all its slots
are used or retired and it does not grow: because it has as many slots as the cap
allows, or because the one growth that it asks for, the present capacity times the
factor, is not granted. A refused growth is not tried again with fewer slots, so the
factor shows in the refusals unless storage for the cap itself is granted. A slot is
retired after `2 ^ 32` releases and not before. Main result: `insert_refused_iff`. -/

namespace Custody

namespace Slot

def isRetired : Slot → Bool
  | .retired => true
  | _ => false

theorem countP_kinds (l : List Slot) :
    l.countP isUsed + l.countP isRetired + l.countP isFree = l.length := by
  induction l with
  | nil => rfl
  | cons s l ih =>
    cases s <;> simp only [List.countP_cons, isUsed, isRetired, isFree, List.length_cons] <;>
      simp only [Bool.false_eq_true, if_true, if_false] <;> omega

end Slot

namespace SlotTable

open Registry (Request Answer)

variable {t : SlotTable}

/-- How many slots have used up their generations. -/
def retired (t : SlotTable) : Nat := t.stored.toList.countP Slot.isRetired

/-! ### Refusals -/

/-- No slot is free exactly if all are used or retired. -/
theorem Sound.firstFree_eq_none_iff (h : t.Sound) :
    t.firstFree = none ↔ t.count + t.retired = t.capacity := by
  have hkinds := Slot.countP_kinds t.stored.toList
  rw [← h.counted, Array.length_toList] at hkinds
  obtain ⟨recycled, hl, -, hm⟩ := h.threaded
  have hfree : recycled = [] ↔ t.stored.toList.countP Slot.isFree = 0 := by
    constructor
    · rintro rfl
      refine countP_stored_eq_zero fun i slot hi => ?_
      cases slot with
      | free next generation => exact absurd ((hm i).mpr ⟨next, generation, hi⟩) List.not_mem_nil
      | used | retired => rfl
    · intro hnone
      refine List.eq_nil_iff_forall_not_mem.mpr fun i hi => ?_
      obtain ⟨next, generation, hs⟩ := (hm i).mp hi
      refine List.countP_eq_zero.mp hnone (.free next generation) ?_ rfl
      exact List.mem_iff_getElem?.mpr ⟨i, by rwa [Array.getElem?_toList]⟩
  constructor
  · intro hf
    have hsize := h.size_eq_capacity hf
    have hr : recycled = [] := by
      cases recycled with
      | nil => rfl
      | cons i path => simp [hf, Linked] at hl
    have := hfree.mp hr
    unfold retired
    omega
  · intro hfull
    have hfits := h.fits
    unfold retired at hfull
    have hr : recycled = [] := hfree.mpr (by omega)
    have hu : t.unused = [] := by simp [unused, show t.capacity - t.stored.size = 0 by omega]
    simpa [hr, hu, Linked] using hl

theorem Sound.count_add_retired_le (h : t.Sound) : t.count + t.retired ≤ t.capacity := by
  have hkinds := Slot.countP_kinds t.stored.toList
  rw [← h.counted, Array.length_toList] at hkinds
  have hfits := h.fits
  unfold retired
  omega

theorem insert_eq_error {s : Standing} {e : HeapRefusal} :
    t.insert s = .error e ↔ t.nextTicket = .error e := by
  unfold insert
  cases t.nextTicket <;> simp [Except.map]

theorem reserve_eq_error {e : HeapRefusal} :
    t.reserve = .error e ↔ e = .slotsExhausted t.capacity ∧ t.firstFree = none ∧
      (t.cap.toNat ≤ t.capacity ∨ t.grant < t.target * slotBytes) := by
  unfold reserve grow
  cases hf : t.firstFree with
  | some i => simp
  | none =>
    simp only [Option.isNone_none, if_true, true_and]
    split_ifs with hc hg
    · simp [hc, eq_comm]
    · simp [hg, eq_comm]
    · simp [hc, hg]

/-- An observer is refused exactly if every slot is taken for good or for now and the
table cannot grow. -/
theorem Sound.insert_eq_error_iff (h : t.Sound) {s : Standing} {e : HeapRefusal} :
    t.insert s = .error e ↔ e = .slotsExhausted t.capacity ∧ t.count + t.retired = t.capacity ∧
      (t.cap.toNat ≤ t.capacity ∨ t.grant < t.target * slotBytes) := by
  rw [insert_eq_error, ← h.firstFree_eq_none_iff, ← reserve_eq_error]
  rcases h.nextTicket_cases with ⟨e', hr, hn⟩ | ⟨u, k, -, hr, hn, -⟩ <;> simp [hr, hn]

/-! ### Settings -/

/-- What the configuration of its heap gives a table. -/
def settings (t : SlotTable) : UInt64 × UInt32 × Nat := (t.growth, t.cap, t.grant)

@[simp] theorem settings_write (i : Nat) (s : Slot) : (t.write i s).settings = t.settings := by
  unfold write; split_ifs <;> rfl

theorem settings_reserve {u : SlotTable} (hu : t.reserve = .ok u) : u.settings = t.settings := by
  unfold reserve grow at hu
  split_ifs at hu <;> cases hu <;> rfl

theorem settings_takeFree (s : Standing) : (t.takeFree s).settings = t.settings := by
  unfold takeFree
  split
  · rfl
  · split
    · exact settings_write _ _
    · rfl

theorem settings_enrol (s : Standing) : (t.enrol s).settings = t.settings := by
  unfold enrol
  cases hu : t.reserve with
  | ok u => exact (settings_takeFree s).trans (settings_reserve hu)
  | error e => rfl

theorem settings_remove (k : Ticket) : (t.remove k).2.settings = t.settings := by
  cases hk : t.find? k with
  | none => rw [remove_of_find?_eq_none hk]
  | some s =>
    rw [remove_of_find? hk]
    exact settings_write _ _

/-! ### Releases and retirement -/

/-- Whether a request is to release slot `i`. -/
def Request.releases (i : Nat) : Request → Bool
  | .remove k => k.index.toNat = i
  | _ => false

/-- A slot that was released `n` times at most is of the `n`-th generation at most. -/
def Aged (n : Nat) : Slot → Prop
  | .free _ generation => generation.toNat ≤ n
  | .used generation _ => generation.toNat ≤ n
  | .retired => UInt32.size ≤ n

theorem Aged.mono {m n : Nat} {slot : Slot} (h : Aged m slot) (hmn : m ≤ n) : Aged n slot := by
  cases slot <;> exact Nat.le_trans h hmn

/-- What a release leaves of a slot is one generation older. -/
theorem aged_released {n : Nat} {generation : UInt32} (h : generation.toNat ≤ n) :
    Aged (n + 1) (t.released generation) := by
  have hlt := generation.toNat_lt
  have hnext : (generation + 1).toNat = (generation.toNat + 1) % UInt32.size := by
    simp [UInt32.toNat_add]
  unfold released
  split_ifs with hg
  · rw [hg] at hnext
    show UInt32.size ≤ n + 1
    simp only [UInt32.toNat_zero, UInt32.size] at hnext ⊢
    omega
  · show (generation + 1).toNat ≤ n + 1
    rw [hnext]
    exact (Nat.mod_le _ _).trans (by omega)

/-- Every stored slot `i` is of the generation `n i` at most. -/
def Ages (t : SlotTable) (n : Nat → Nat) : Prop :=
  ∀ i slot, t.stored[i]? = some slot → Aged (n i) slot

theorem Ages.mono {m n : Nat → Nat} (h : t.Ages m) (hmn : ∀ i, m i ≤ n i) : t.Ages n :=
  fun i slot hi => (h i slot hi).mono (hmn i)

variable {n : Nat → Nat}

theorem Ages.enrol (ha : t.Ages n) (h : t.Sound) (s : Standing) : (t.enrol s).Ages n := by
  rcases h.nextTicket_cases with ⟨e, -, hn⟩ | ⟨u, k, next, hu, -, hsound, hf, hs⟩
  · rwa [h.enrol_of_error hn]
  have he : (t.enrol s).stored = (u.write k.index.toNat (.used k.generation s)).stored := by
    simp [SlotTable.enrol, hu, takeFree_of_free hf hs]
  have hold : Aged (n k.index.toNat) (.free next k.generation) := by
    by_cases hlt : k.index.toNat < u.stored.size
    · rw [slot?_of_lt hlt, stored_of_reserve hu] at hs
      exact ha _ _ hs
    · rw [slot?_of_le (by omega) (lt_capacity_of_slot? hsound.fits hs)] at hs
      injection hs with hs
      injection hs with _ hg
      rw [← hg]
      exact Nat.zero_le _
  intro i slot hi
  rw [he, stored_write (hsound.head hf).1, stored_of_reserve hu] at hi
  split_ifs at hi with heq
  · cases hi
    rw [heq]
    exact hold
  · exact ha i slot hi

theorem Ages.remove (ha : t.Ages n) (k : Ticket) :
    (t.remove k).2.Ages fun i => n i + if k.index.toNat = i then 1 else 0 := by
  intro i slot hi
  cases hk : t.find? k with
  | none =>
    rw [remove_of_find?_eq_none hk] at hi
    exact (ha i slot hi).mono (Nat.le_add_right _ _)
  | some s =>
    have hs := slot?_of_find? hk
    have hlt := lt_size_of_slot? hs rfl
    rw [slot?_of_lt hlt] at hs
    rw [remove_of_find? hk] at hi
    simp only [stored_write (.inl hlt)] at hi
    split_ifs at hi with heq
    · obtain rfl := Option.some.inj hi
      simpa only [heq, if_true] using aged_released (ha _ _ hs)
    · exact (ha i slot hi).mono (Nat.le_add_right _ _)

theorem Ages.update (ha : t.Ages n) (f : Ticket → Standing → Standing) : (t.update f).Ages n := by
  intro i slot hi
  simp only [SlotTable.update, Array.getElem?_mapIdx, Option.map_eq_some_iff] at hi
  obtain ⟨old, hold, rfl⟩ := hi
  have hage := ha i old hold
  cases old <;> exact hage

/-! ### Runs -/

/-- What a request makes of a table. -/
theorem Sound.obey_cases (h : t.Sound) (r : Request) :
    (∃ s, (t.obey r).2 = t.enrol s) ∨ (∃ k, r = .remove k ∧ (t.obey r).2 = (t.remove k).2) ∨
      ∃ f, (t.obey r).2 = t.update f := by
  cases r with
  | insert s =>
    refine .inl ⟨s, ?_⟩
    cases hk : t.nextTicket with
    | error e => simp [SlotTable.obey, SlotTable.insert, hk, Except.map, h.enrol_of_error hk]
    | ok k => simp [SlotTable.obey, SlotTable.insert, hk, Except.map]
  | remove k => exact .inr (.inl ⟨k, rfl, rfl⟩)
  | standing | isLive => exact .inr (.inr ⟨_, update_eq_self.symm⟩)
  | dismissAll => exact .inr (.inr ⟨fun _ _ => .gone, rfl⟩)
  | visit f =>
    simp only [SlotTable.obey, h.visit_eq]
    exact .inr (.inr ⟨_, rfl⟩)

theorem Sound.obey (h : t.Sound) (r : Request) : (t.obey r).2.Sound := by
  rcases h.obey_cases r with ⟨s, he⟩ | ⟨k, -, he⟩ | ⟨f, he⟩ <;> rw [he]
  · exact h.enrol s
  · exact h.remove k
  · exact h.update f

theorem Sound.settings_obey (h : t.Sound) (r : Request) : (t.obey r).2.settings = t.settings := by
  rcases h.obey_cases r with ⟨s, he⟩ | ⟨k, -, he⟩ | ⟨f, he⟩ <;> rw [he]
  · exact settings_enrol s
  · exact settings_remove k
  · rfl

/-- A request makes a slot one generation older at most, and only by releasing it. -/
theorem Ages.obey (ha : t.Ages n) (h : t.Sound) (r : Request) :
    (t.obey r).2.Ages fun i => n i + if Request.releases i r then 1 else 0 := by
  rcases h.obey_cases r with ⟨s, he⟩ | ⟨k, rfl, he⟩ | ⟨f, he⟩ <;> rw [he]
  · exact (ha.enrol h s).mono fun _ => Nat.le_add_right _ _
  · simpa [Request.releases] using ha.remove k
  · exact (ha.update f).mono fun _ => Nat.le_add_right _ _

theorem Sound.obeyAll (h : t.Sound) (rs : List Request) :
    (t.obeyAll rs).Sound ∧ (t.obeyAll rs).settings = t.settings := by
  induction rs generalizing t with
  | nil => exact ⟨h, rfl⟩
  | cons r rs ih =>
    obtain ⟨hs, he⟩ := ih (h.obey r)
    exact ⟨hs, he.trans (h.settings_obey r)⟩

theorem Ages.obeyAll (ha : t.Ages n) (h : t.Sound) (rs : List Request) :
    (t.obeyAll rs).Ages fun i => n i + rs.countP (Request.releases i) := by
  induction rs generalizing t n with
  | nil => exact ha
  | cons r rs ih =>
    refine (ih (ha.obey h r) (h.obey r)).mono fun i => ?_
    rw [List.countP_cons]
    omega

/-- A table that released no slot `2 ^ 32` times has retired none. -/
theorem Ages.retired_eq_zero (ha : t.Ages n) (hn : ∀ i, n i < UInt32.size) : t.retired = 0 := by
  refine countP_stored_eq_zero fun i slot hi => ?_
  cases slot with
  | retired => exact absurd (ha i _ hi) (Nat.not_le.mpr (hn i))
  | free | used => rfl

/-- On every run, an observer is refused exactly if all slots are used or retired and
either there are as many as the cap allows or the growth that is asked for is not
granted. Where storage for the cap is granted, only the used and the retired slots
count, whatever the growth factor. No slot is retired before its `2 ^ 32`-nd release. -/
theorem insert_refused_iff (growth : UInt64) (cap : UInt32) (grant : Nat) (rs : List Request) :
    let t := (empty growth cap grant).obeyAll rs
    (∀ s e, t.insert s = .error e ↔
      e = .slotsExhausted t.capacity ∧ t.count + t.retired = t.capacity ∧
        (cap.toNat ≤ t.capacity ∨ grant < t.target * slotBytes)) ∧
    (initial ≤ cap.toNat → cap.toNat * slotBytes ≤ grant → ∀ s e, t.insert s = .error e ↔
      e = .slotsExhausted cap.toNat ∧ t.count + t.retired = cap.toNat) ∧
    ((∀ i, rs.countP (Request.releases i) < UInt32.size) → t.retired = 0) := by
  intro t
  have hrun := (sound_empty growth cap grant).obeyAll rs
  have hsound : t.Sound := hrun.1
  have hcap : t.cap = cap := congrArg (·.2.1) hrun.2
  have hgrant : t.grant = grant := congrArg (·.2.2) hrun.2
  have hrefused : ∀ s e, t.insert s = .error e ↔
      e = .slotsExhausted t.capacity ∧ t.count + t.retired = t.capacity ∧
        (cap.toNat ≤ t.capacity ∨ grant < t.target * slotBytes) := by
    rw [← hcap, ← hgrant]
    exact fun s e => hsound.insert_eq_error_iff
  refine ⟨hrefused, fun hinit hall s e => ?_, fun hfew => ?_⟩
  · have htaken : t.count + t.retired ≤ t.capacity := hsound.count_add_retired_le
    have hbounded : t.capacity ≤ cap.toNat := by
      have := hsound.bounded
      rw [hcap] at this
      omega
    have htarget : t.target * slotBytes ≤ grant := by
      refine le_trans (Nat.mul_le_mul_right _ ?_) hall
      rw [← hcap]
      exact min_le_right _ _
    rw [hrefused]
    constructor
    · rintro ⟨rfl, hfull, hc | hg⟩
      · rw [hfull, le_antisymm hbounded hc]
        exact ⟨rfl, rfl⟩
      · omega
    · rintro ⟨rfl, hfull⟩
      have hc : t.capacity = cap.toNat := by omega
      rw [hc]
      exact ⟨rfl, hfull, .inl le_rfl⟩
  · have hages : (empty growth cap grant).Ages fun _ => 0 := by
      intro i slot hi
      simp [empty] at hi
    exact (hages.obeyAll (sound_empty growth cap grant) rs).retired_eq_zero (by simpa using hfew)

/-- A table that may have six slots and asks for twenty at once: the sixth observer is
registered, the seventh refused. -/
theorem seventh_refused_of_six :
    let t := (empty 4 6 World.defaultGrant).obeyAll (List.replicate 6 (.insert .live))
    t.retired = 0 ∧ t.count = 6 ∧ t.insert .live = .error (.slotsExhausted 6) := by
  obtain ⟨-, hcap, hretired⟩ :=
    insert_refused_iff 4 6 World.defaultGrant (List.replicate 6 (.insert .live))
  have hcount :
      ((empty 4 6 World.defaultGrant).obeyAll (List.replicate 6 (.insert .live))).count = 6 := by
    decide
  have hzero := hretired fun i => by
    rw [show (List.replicate 6 (Request.insert .live)).countP (Request.releases i) = 0 from rfl]
    decide
  exact ⟨hzero, hcount, (hcap (by decide) (by decide) _ _).mpr ⟨rfl, by rw [hcount, hzero]; rfl⟩⟩

/-- The growth factor decides whether the sixth observer of an object is registered. The
cap is far away and there is room for one more slot, but a factor of `2 ^ 32` asks for
all the slots of the cap at once. -/
theorem sixth_refused_for_its_growth :
    let full growth :=
      (empty growth 4294967294 World.defaultGrant).obeyAll (List.replicate 5 (.insert .live))
    (full 4294967296).insert .live = .error (.slotsExhausted 5) ∧
      (full 4294967296).count ≠ 4294967294 ∧
      ((full 4294967296).capacity + 1) * slotBytes ≤ World.defaultGrant ∧
      ((full 2).insert .live).map (·.1) = .ok ⟨5, 0⟩ := by
  refine ⟨?_, ?_, ?_, ?_⟩ <;> decide

end SlotTable

end Custody

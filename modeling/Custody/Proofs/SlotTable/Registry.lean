import Custody.Proofs.SlotTable.Visit

/-! A slot table refines a registry: a finite map from tickets to standings that never
issues a ticket twice. The free list, the generations and the growth of the table do
not show in its answers. Main result: `agrees_with_registry`. -/

namespace Custody

/-- A registry in the abstract: the standings of the tickets in use, and every ticket
that was ever issued. -/
structure Registry where
  standing : Ticket → Option Standing
  issued : Set Ticket

namespace Registry

def empty : Registry := ⟨fun _ => none, ∅⟩

/-- How many tickets are in use. -/
noncomputable def size (m : Registry) : Nat := {k | (m.standing k).isSome}.ncard

/-- How many tickets are in use and live. -/
noncomputable def live (m : Registry) : Nat := {k | m.standing k = some .live}.ncard

/-- What is asked of a registry. What a round of visits writes may depend on all that
it has seen before. -/
inductive Request where
  | insert (s : Standing)
  | remove (k : Ticket)
  | standing (k : Ticket)
  | isLive (k : Ticket)
  | dismissAll
  | visit (f : List (Ticket × Standing) → Ticket → Standing → Standing)

inductive Answer where
  | issued (k : Ticket)
  | refused (e : HeapRefusal)
  | removed (found : Bool)
  | standing (s : Option Standing)
  | isLive (yes : Bool)
  | dismissed (n : Nat)
  | visited (es : List (Ticket × Standing))

/-- What a registry may answer, and what becomes of it. Only which ticket is issued,
and whether one is, are left open. -/
inductive Step (m : Registry) : Request → Answer → Registry → Prop where
  | issue {s : Standing} {k : Ticket} (fresh : k ∉ m.issued) :
    Step m (.insert s) (.issued k)
      ⟨Function.update m.standing k (some s), insert k m.issued⟩
  | refuse {s : Standing} {e : HeapRefusal} : Step m (.insert s) (.refused e) m
  | remove {k : Ticket} :
    Step m (.remove k) (.removed (m.standing k).isSome)
      ⟨Function.update m.standing k none, m.issued⟩
  | standing {k : Ticket} : Step m (.standing k) (.standing (m.standing k)) m
  | isLive {k : Ticket} : Step m (.isLive k) (.isLive (m.standing k = some .live)) m
  | dismissAll :
    Step m .dismissAll (.dismissed m.live)
      ⟨fun k => (m.standing k).map fun _ => .gone, m.issued⟩
  | visit {f : List (Ticket × Standing) → Ticket → Standing → Standing}
      {es : List (Ticket × Standing)}
      (ordered : es.Pairwise fun a b => a.1.index < b.1.index)
      (all : ∀ k s, (k, s) ∈ es ↔ m.standing k = some s) :
    Step m (.visit f) (.visited es)
      ⟨fun k => (m.standing k).map (f (es.filter (·.1.index < k.index)) k), m.issued⟩

end Registry

namespace SlotTable

open Registry (Request Answer)

variable {t : SlotTable} {m : Registry}

/-- What a slot table answers, and what becomes of it. -/
def obey (t : SlotTable) : Request → Answer × SlotTable
  | .insert s =>
    match t.insert s with
    | .ok (k, u) => (.issued k, u)
    | .error e => (.refused e, t)
  | .remove k => (.removed (t.remove k).1, (t.remove k).2)
  | .standing k => (.standing (t.find? k), t)
  | .isLive k => (.isLive (t.isLive k), t)
  | .dismissAll => (.dismissed t.dismissAll.1, t.dismissAll.2)
  | .visit f =>
    let r := t.visit (fun seen k s => (seen ++ [(k, s)], f seen k s)) []
    (.visited r.1, r.2)

def obeyAll (t : SlotTable) (rs : List Request) : SlotTable := rs.foldl (fun t r => (t.obey r).2) t

/-- Every answer of the table is one that the registry may give, the count is the size
of the registry's map, and the capacity never decreases. -/
def Agrees : List Request → SlotTable → Registry → Prop
  | [], _, _ => True
  | r :: rs, t, m =>
    ∃ m', m.Step r (t.obey r).1 m' ∧ (t.obey r).2.count = m'.size ∧
      t.capacity ≤ (t.obey r).2.capacity ∧ Agrees rs (t.obey r).2 m'

/-! ### Spent tickets -/

/-- Whether a slot has come to the generation of a ticket and will not issue it
again. -/
def HasPassed (generation : UInt32) : Slot → Prop
  | .free _ g => generation < g
  | .used g _ => generation ≤ g
  | .retired => True

/-- The ticket was issued before, as far as the table can tell. -/
def IsSpent (t : SlotTable) (k : Ticket) : Prop :=
  ∃ slot, t.stored[k.index.toNat]? = some slot ∧ HasPassed k.generation slot

/-- The next ticket was never issued before. -/
theorem Sound.not_isSpent_nextTicket (h : t.Sound) {k : Ticket} (hk : t.nextTicket = .ok k) :
    ¬ t.IsSpent k := by
  obtain ⟨u, next, hu, -, -, hs⟩ := h.nextTicket_ok hk
  rintro ⟨slot, hslot, hp⟩
  rw [← stored_of_reserve hu] at hslot
  rw [slot?_of_lt (Array.getElem?_eq_some_iff.mp hslot).1, hslot] at hs
  cases hs
  exact UInt32.lt_irrefl _ hp

theorem Sound.isSpent_enrol (h : t.Sound) {k : Ticket} (hk : t.nextTicket = .ok k) (s : Standing)
    {j : Ticket} (hj : j = k ∨ t.IsSpent j) : (t.enrol s).IsSpent j := by
  obtain ⟨u, next, hu, hsound, hf, hs⟩ := h.nextTicket_ok hk
  have hw := (hsound.head hf).1
  have he : (t.enrol s).stored = (u.write k.index.toNat (.used k.generation s)).stored := by
    simp [SlotTable.enrol, hu, takeFree_of_free hf hs]
  unfold IsSpent
  rw [he, stored_write hw, stored_of_reserve hu]
  rcases hj with rfl | ⟨slot, hslot, hp⟩
  · exact ⟨_, if_pos rfl, UInt32.le_refl _⟩
  · by_cases hi : j.index.toNat = k.index.toNat
    · refine ⟨_, if_pos hi, ?_⟩
      rw [hi, ← stored_of_reserve hu] at hslot
      rw [slot?_of_lt (Array.getElem?_eq_some_iff.mp hslot).1, hslot] at hs
      cases hs
      exact UInt32.le_of_lt hp
    · exact ⟨slot, by rwa [if_neg hi], hp⟩

theorem isSpent_remove (k : Ticket) {j : Ticket} (hj : t.IsSpent j) : (t.remove k).2.IsSpent j := by
  cases hk : t.find? k with
  | none => rwa [remove_of_find?_eq_none hk]
  | some s =>
    obtain ⟨slot, hslot, hp⟩ := hj
    have hs := slot?_of_find? hk
    have hw : t.Writable k.index.toNat := .inl (lt_size_of_slot? hs rfl)
    rw [remove_of_find? hk]
    unfold IsSpent
    simp only [stored_write hw]
    by_cases hi : j.index.toNat = k.index.toNat
    · refine ⟨_, if_pos hi, ?_⟩
      rw [slot?_of_lt (lt_size_of_slot? hs rfl), ← hi, hslot] at hs
      cases hs
      have hp : j.generation ≤ k.generation := hp
      unfold released
      split_ifs with hg
      · trivial
      · show j.generation < k.generation + 1
        have hmax : k.generation ≠ -1 := fun he => hg (by rw [he]; rfl)
        exact UInt32.lt_of_le_of_lt hp (UInt32.lt_add_one hmax)
    · exact ⟨slot, by rwa [if_neg hi], hp⟩

theorem isSpent_update (f : Ticket → Standing → Standing) {j : Ticket} (hj : t.IsSpent j) :
    (t.update f).IsSpent j := by
  obtain ⟨slot, hslot, hp⟩ := hj
  refine ⟨_, by simp [update, hslot]; rfl, ?_⟩
  cases slot <;> exact hp

/-! ### The refinement -/

/-- The table stands for a registry. -/
structure Represents (t : SlotTable) (m : Registry) : Prop where
  sound : t.Sound
  standing : t.find? = m.standing
  spent : ∀ k ∈ m.issued, t.IsSpent k

theorem represents_empty (growth : UInt64) (cap : UInt32) (grant : Nat) :
    (empty growth cap grant).Represents Registry.empty where
  sound := sound_empty growth cap grant
  standing := funext fun k => find?_empty growth cap grant k
  spent := by simp [Registry.empty]

/-- As many tickets are in use as there are entries with a property, if the tickets are
those of the entries with it. -/
theorem Sound.ncard_eq (h : t.Sound) {p : Ticket × Standing → Bool} {S : Set Ticket}
    (hS : ∀ k, k ∈ S ↔ ∃ s, t.find? k = some s ∧ p (k, s)) :
    S.ncard = (t.entries.filter p).length := by
  classical
  have hset : S = (((t.entries.filter p).map Prod.fst).toFinset : Set Ticket) := by
    ext k
    simp [hS, h.mem_entries]
  have hnodup : ((t.entries.filter p).map Prod.fst).Nodup :=
    h.nodup_tickets.sublist (List.filter_sublist.map _)
  rw [hset, Set.ncard_coe_finset, List.toFinset_card_of_nodup hnodup, List.length_map]

/-- A live observer that leaves is one fewer to be told. -/
theorem Sound.liveCount_remove (h : t.Sound) {k : Ticket} (hk : t.find? k = some .live) :
    (t.remove k).2.liveCount + 1 = t.liveCount := by
  have hleft : ({j | (t.remove k).2.find? j = some .live} : Set Ticket).ncard =
      (t.remove k).2.liveCount := (h.remove k).ncard_eq (p := fun e => e.2 = .live) (by simp)
  have hall : ({j | t.find? j = some .live} : Set Ticket).ncard = t.liveCount :=
    h.ncard_eq (p := fun e => e.2 = .live) (by simp)
  have hset : {j | (t.remove k).2.find? j = some .live} = {j | t.find? j = some .live} \ {k} := by
    ext j
    by_cases hj : j = k <;> simp [find?_remove, Function.update_apply, hj]
  have hfinite : ({j | t.find? j = some .live} : Set Ticket).Finite := by
    refine Set.finite_of_ncard_pos ?_
    rw [hall]
    exact List.length_pos_of_mem (List.mem_filter.mpr ⟨h.mem_entries.mpr hk, by simp⟩)
  rw [← hleft, ← hall, hset]
  exact Set.ncard_sdiff_singleton_add_one hk hfinite

theorem Represents.count_eq (h : t.Represents m) : t.count = m.size := by
  rw [Registry.size, h.sound.ncard_eq (p := fun _ => true)]
  · simp [h.sound.count_eq]
  · simp [← h.standing, Option.isSome_iff_exists]

theorem Represents.liveCount_eq (h : t.Represents m) : t.liveCount = m.live := by
  rw [Registry.live, liveCount, h.sound.ncard_eq (p := fun e => e.2 = .live)]
  simp [← h.standing]

theorem Represents.update (h : t.Represents m) (f : Ticket → Standing → Standing) :
    (t.update f).Represents ⟨fun k => (m.standing k).map (f k), m.issued⟩ where
  sound := h.sound.update f
  standing := by
    funext k
    simp only [find?_update, h.standing]
  spent k hk := isSpent_update f (h.spent k hk)

/-- Whatever is asked, the table answers as the registry may, and stands for it
afterwards. -/
theorem Represents.obey (h : t.Represents m) (r : Request) :
    ∃ m', m.Step r (t.obey r).1 m' ∧ (t.obey r).2.Represents m' := by
  have hsound := h.sound
  cases r with
  | insert s =>
    cases hk : t.nextTicket with
    | error e =>
      have ho : t.obey (.insert s) = (.refused e, t) := by
        simp [SlotTable.obey, SlotTable.insert, hk, Except.map]
      rw [ho]
      exact ⟨m, .refuse, h⟩
    | ok k =>
      have ho : t.obey (.insert s) = (.issued k, t.enrol s) := by
        simp [SlotTable.obey, SlotTable.insert, hk, Except.map]
      rw [ho]
      refine ⟨_, .issue fun hi => hsound.not_isSpent_nextTicket hk (h.spent k hi), hsound.enrol s,
        ?_, fun j hj => hsound.isSpent_enrol hk s (hj.imp_right (h.spent j))⟩
      rw [hsound.find?_enrol hk, h.standing]
  | remove k =>
    have ho : t.obey (.remove k) = (.removed (m.standing k).isSome, (t.remove k).2) := by
      simp [SlotTable.obey, remove_fst, h.standing]
    rw [ho]
    refine ⟨_, .remove, hsound.remove k, ?_, fun j hj => isSpent_remove k (h.spent j hj)⟩
    rw [find?_remove, h.standing]
  | standing k =>
    have ho : t.obey (.standing k) = (.standing (m.standing k), t) := by
      simp [SlotTable.obey, h.standing]
    rw [ho]
    exact ⟨m, .standing, h⟩
  | isLive k =>
    have ho : t.obey (.isLive k) = (.isLive (m.standing k = some .live), t) := by
      simp [SlotTable.obey, SlotTable.isLive, h.standing]
    rw [ho]
    exact ⟨m, .isLive, h⟩
  | dismissAll =>
    have ho : t.obey .dismissAll = (.dismissed m.live, t.update fun _ _ => .gone) := by
      simp [SlotTable.obey, SlotTable.dismissAll, h.liveCount_eq]
    rw [ho]
    exact ⟨_, .dismissAll, h.update fun _ _ => .gone⟩
  | visit f =>
    let g k s := f (t.entries.filter (·.1.index < k.index)) k s
    have ho : t.obey (.visit f) = (.visited t.entries, t.update g) := by
      simp only [SlotTable.obey, hsound.visit_eq, stateAfter_record, List.nil_append, g]
    rw [ho]
    refine ⟨_, .visit hsound.pairwise_entries fun k s => ?_, h.update g⟩
    rw [hsound.mem_entries, h.standing]

theorem capacity_le_obey (r : Request) : t.capacity ≤ (t.obey r).2.capacity := by
  cases r with
  | insert s =>
    simp only [obey, insert]
    cases t.nextTicket with
    | error e => exact le_rfl
    | ok k => exact capacity_le_enrol s
  | remove k => simp [obey]
  | standing | isLive | dismissAll | visit => exact le_rfl

theorem Represents.agrees (h : t.Represents m) (rs : List Request) : Agrees rs t m := by
  induction rs generalizing t m with
  | nil => trivial
  | cons r rs ih =>
    obtain ⟨m', hstep, hr⟩ := h.obey r
    exact ⟨m', hstep, hr.count_eq, capacity_le_obey r, ih hr⟩

theorem Represents.obeyAll (h : t.Represents m) (rs : List Request) :
    ∃ m', (t.obeyAll rs).Represents m' := by
  induction rs generalizing t m with
  | nil => exact ⟨m, h⟩
  | cons r rs ih =>
    obtain ⟨m', -, hr⟩ := h.obey r
    exact ih hr

/-- Nobody is left to be told that the owner has gone. -/
theorem Sound.dismissAll_twice (h : t.Sound) : t.dismissAll.2.dismissAll.1 = 0 := by
  have hgone : ∀ e ∈ t.dismissAll.2.entries, e.2 ≠ .live := by
    rintro ⟨k, s⟩ he hs
    have hk := (h.update fun _ _ => .gone).mem_entries.mp he
    rw [find?_update] at hk
    obtain ⟨s', -, rfl⟩ := Option.map_eq_some_iff.mp hk
    cases hs
  show ((t.dismissAll.2.entries.filter fun e => e.2 = .live)).length = 0
  simpa [List.filter_eq_nil_iff] using hgone

theorem Sound.update_eq_visit (h : t.Sound) (f : Ticket → Standing → Standing) :
    t.update f = (t.visit (fun _ k s => ((), f k s)) ()).2 := by
  rw [congrArg Prod.snd (h.visit_eq _ _)]

theorem remove_of_not_found {k : Ticket} (hk : (t.remove k).1 = false) : (t.remove k).2 = t := by
  rw [remove_fst, Option.isSome_eq_false_iff, Option.isNone_iff_eq_none] at hk
  rw [remove_of_find?_eq_none hk]

theorem Sound.enrol_of_refused (h : t.Sound) {s : Standing} {e : HeapRefusal}
    (he : t.insert s = .error e) : t.enrol s = t := by
  unfold SlotTable.insert at he
  cases hk : t.nextTicket with
  | error e' => exact h.enrol_of_error hk s
  | ok k => simp [hk, Except.map] at he

/-- For every growth factor, cap and allocator, a slot table answers every sequence of
requests as a registry does that never issues a ticket twice. A request that is not
granted leaves the whole table as it is, a second dismissal finds nobody to tell, and
`update` and `dismissAll` are rounds of visits. -/
theorem agrees_with_registry (growth : UInt64) (cap : UInt32) (grant : Nat) (rs : List Request) :
    Agrees rs (empty growth cap grant) Registry.empty ∧
      let u := (empty growth cap grant).obeyAll rs
      (∀ s e, u.insert s = .error e → u.enrol s = u) ∧
      (∀ k, (u.remove k).1 = false → (u.remove k).2 = u) ∧
      u.dismissAll.2.dismissAll.1 = 0 ∧
      u.dismissAll = u.visit (fun n _ s => (if s = .live then n + 1 else n, .gone)) 0 ∧
      ∀ f, u.update f = (u.visit (fun _ k s => ((), f k s)) ()).2 := by
  have h := represents_empty growth cap grant
  obtain ⟨m, hm⟩ := h.obeyAll rs
  have hs := hm.sound
  exact ⟨h.agrees rs, fun s e he => hs.enrol_of_refused he, fun k hk => remove_of_not_found hk,
    hs.dismissAll_twice, hs.dismissAll_eq_visit, hs.update_eq_visit⟩

end SlotTable

end Custody

import Custody.Proofs.SlotTable.Recycling

/-! How many slots a table has. It grows only when every slot that it has is in use, and
then to a size that the growth factor and the cap determine. So the capacity depends on
the highest count that there has been, and not on what was released meanwhile or on the
growths that were not granted. Every slot and every link is a number of 32 bits.
Main result: `capacity_of_peak`. -/

namespace Custody

namespace SlotTable

open Registry (Request Answer)

variable {t u : SlotTable} {es : List Event} {growth : UInt64} {cap : UInt32} {n : Nat}

/-- The capacity of a table that grew `n` times, each time by the factor, to a machine
word at most, but by one at least and to the cap at most. -/
def capacityAfter (growth : UInt64) (cap : UInt32) : Nat → Nat
  | 0 => initial
  | n + 1 =>
    let c := capacityAfter growth cap n
    if c < cap.toNat then min cap.toNat (max (min (c * growth.toNat) (2 ^ 64 - 1)) (c + 1)) else c

/-! ### Growth -/

/-- The table grew `n` times, and needed every one of these growths. -/
structure Grew (growth : UInt64) (cap : UInt32) (n : Nat) (t : SlotTable) : Prop where
  factor : t.growth = growth
  limit : t.cap = cap
  capacity : t.capacity = capacityAfter growth cap n
  needed : ∀ m < n, capacityAfter growth cap m < t.stored.size

theorem grew_empty (growth : UInt64) (cap : UInt32) (grant : Nat) :
    Grew growth cap 0 (empty growth cap grant) :=
  ⟨rfl, rfl, rfl, fun _ hm => absurd hm (Nat.not_lt_zero _)⟩

theorem Grew.of_eq (h : Grew growth cap n t) (hs : u.settings = t.settings)
    (hc : u.capacity = t.capacity) (hsize : t.stored.size ≤ u.stored.size) :
    Grew growth cap n u where
  factor := (congrArg (·.1) hs).trans h.factor
  limit := (congrArg (·.2.1) hs).trans h.limit
  capacity := hc.trans h.capacity
  needed m hm := (h.needed m hm).trans_le hsize

/-- A growth comes to the next capacity. -/
theorem Grew.target (h : Grew growth cap n t) (hc : t.capacity < t.cap.toNat) :
    t.target = capacityAfter growth cap (n + 1) := by
  rw [h.capacity, h.limit] at hc
  simp only [SlotTable.target, capacityAfter, if_pos hc, h.capacity, h.limit, h.factor]
  exact min_comm _ _

/-- Either a slot is free, or the table grows and takes the first of the new ones. -/
theorem Sound.reserve_cases (h : t.Sound) {k : Ticket} (hk : t.nextTicket = .ok k) :
    t.reserve = .ok t ∨ t.capacity < t.cap.toNat ∧ k.index.toNat = t.capacity ∧
      t.reserve = .ok { t with capacity := t.target, firstFree := some t.capacity } := by
  obtain ⟨u, next, hu, -, hf, -⟩ := h.nextTicket_ok hk
  have hcases := hu
  unfold SlotTable.reserve SlotTable.grow at hcases
  split_ifs at hcases with hnone hc
  · cases hcases
    exact .inr ⟨Nat.not_le.mp hc, (Option.some.inj hf).symm, hu⟩
  · cases hcases
    exact .inl hu

theorem Grew.enrol (hg : Grew growth cap n t) (h : t.Recalls es) {k : Ticket}
    (hk : t.nextTicket = .ok k) (s : Standing) : ∃ n, Grew growth cap n (t.enrol s) := by
  have hsize := h.size_enrol hk s
  have hs := settings_enrol (t := t) s
  rcases h.sound.reserve_cases hk with hr | ⟨hc, hindex, hr⟩
  · have hcapacity : (t.enrol s).capacity = t.capacity := by simp [SlotTable.enrol, hr]
    exact ⟨n, hg.of_eq hs hcapacity (by omega)⟩
  · have hcapacity : (t.enrol s).capacity = t.target := by simp [SlotTable.enrol, hr]
    refine ⟨n + 1, (congrArg (·.1) hs).trans hg.factor, (congrArg (·.2.1) hs).trans hg.limit,
      hcapacity.trans (hg.target hc), fun m hm => ?_⟩
    rcases Nat.lt_succ_iff_lt_or_eq.mp hm with hm | rfl
    · have := hg.needed m hm
      omega
    · rw [← hg.capacity]
      omega

theorem Grew.obey (hg : Grew growth cap n t) (h : t.Recalls es) (r : Request) :
    ∃ n, Grew growth cap n (t.obey r).2 := by
  rcases h.sound.obey_reported r with ⟨s, k, rfl, hk, ho⟩ | ⟨k, s, rfl, -, ho⟩ | ⟨-, f, ho⟩ <;>
    rw [ho]
  · exact hg.enrol h hk s
  · exact ⟨n, hg.of_eq (settings_remove k) (remove_capacity k) (size_remove k).ge⟩
  · exact ⟨n, hg.of_eq rfl rfl (by simp [SlotTable.update])⟩

theorem Grew.obeyAll (hg : Grew growth cap n t) (h : t.Recalls es) (rs : List Request)
    (hfew : Few (es ++ history rs t)) : ∃ n, Grew growth cap n (t.obeyAll rs) := by
  induction rs generalizing t es n with
  | nil => exact ⟨n, hg⟩
  | cons r rs ih =>
    obtain ⟨n, hg⟩ := hg.obey h r
    rw [history, ← List.append_assoc] at hfew
    exact ih hg (h.obey r hfew.of_append) hfew

/-- A table has more slots than at the start exactly if one of the requests made it grow. -/
theorem capacity_lt_obeyAll_iff (rs : List Request) :
    t.capacity < (t.obeyAll rs).capacity ↔ ∃ qs r, qs ++ [r] <+: rs ∧
      (t.obeyAll qs).capacity < (t.obeyAll (qs ++ [r])).capacity := by
  have hmono : ∀ (qs : List Request) (v : SlotTable), v.capacity ≤ (v.obeyAll qs).capacity := by
    intro qs
    induction qs with
    | nil => exact fun v => le_rfl
    | cons r qs ih => exact fun v => (capacity_le_obey r).trans (ih (v.obey r).2)
  have happend : ∀ qs qs', t.obeyAll (qs ++ qs') = (t.obeyAll qs).obeyAll qs' := fun qs qs' =>
    List.foldl_append
  constructor
  · intro h
    induction rs using List.reverseRecOn with
    | nil => exact absurd h (lt_irrefl _)
    | append_singleton qs r ih =>
      by_cases hqs : t.capacity < (t.obeyAll qs).capacity
      · obtain ⟨qs', r', hprefix, hlt⟩ := ih hqs
        exact ⟨qs', r', hprefix.trans (List.prefix_append _ _), hlt⟩
      · exact ⟨qs, r, List.prefix_rfl, (Nat.not_lt.mp hqs).trans_lt h⟩
  · rintro ⟨qs, r, ⟨rest, rfl⟩, hlt⟩
    calc t.capacity ≤ (t.obeyAll qs).capacity := hmono qs t
      _ < (t.obeyAll (qs ++ [r])).capacity := hlt
      _ ≤ (t.obeyAll (qs ++ [r] ++ rest)).capacity := happend (qs ++ [r]) rest ▸ hmono rest _

/-! ### Links -/

theorem Linked.mem_of_head {path : List Nat} {i : Nat} (h : t.Linked (some i) path) : i ∈ path := by
  cases path with
  | nil => cases h
  | cons j path =>
    obtain ⟨hi, -⟩ := h
    cases hi
    exact List.mem_cons_self

theorem Linked.mem_of_next {head : Option Nat} {path : List Nat} (h : t.Linked head path)
    {i j : Nat} {generation : UInt32} (hi : i ∈ path)
    (hs : t.slot? i = some (.free (some j) generation)) : j ∈ path := by
  induction path generalizing head with
  | nil => cases hi
  | cons k path ih =>
    obtain ⟨-, next, generation', hs', hn⟩ := h
    rcases List.mem_cons.mp hi with rfl | hi
    · rw [hs'] at hs
      cases hs
      exact List.mem_cons_of_mem _ hn.mem_of_head
    · exact List.mem_cons_of_mem _ (ih hn hi)

/-- The links lead to slots of the table. -/
theorem Sound.links (h : t.Sound) :
    (∀ i, t.firstFree = some i → i < t.capacity) ∧
      ∀ i j generation, t.slot? i = some (.free (some j) generation) → j < t.capacity := by
  obtain ⟨recycled, hl, -, hm⟩ := h.threaded
  have hlt : ∀ i ∈ recycled ++ t.unused, i < t.capacity := fun i hi => by
    obtain ⟨next, generation, hs⟩ := hl.free_of_mem hi
    exact lt_capacity_of_slot? h.fits hs
  refine ⟨fun i hi => hlt i (hi ▸ hl).mem_of_head, fun i j generation hs => ?_⟩
  refine hlt j (hl.mem_of_next ?_ hs)
  rw [List.mem_append]
  by_cases hi : i < t.stored.size
  · rw [slot?_of_lt hi] at hs
    exact .inl ((hm i).mpr ⟨_, _, hs⟩)
  · exact .inr ((mem_unused h.fits).mpr ⟨by omega, lt_capacity_of_slot? h.fits hs⟩)

theorem Sound.capacity_lt (h : t.Sound) : t.capacity < UInt32.size := by
  have hbounded := h.bounded
  have hcap := t.cap.toNat_lt
  simp only [initial, UInt32.size] at *
  omega

/-- How much room there is in `u` after the requests `rs`, which began with the empty table
`t`. -/
structure FitsPeak (growth : UInt64) (cap : UInt32) (rs : List Request)
    (t u : SlotTable) : Prop where
  /-- The capacity is the first that is not below the highest count so far. -/
  least : ∃ n, u.capacity = capacityAfter growth cap n ∧ peak rs t ≤ capacityAfter growth cap n ∧
    ∀ m < n, capacityAfter growth cap m < peak rs t
  /-- Unless a growth is not granted, observers are refused only at the cap. -/
  refused_iff : u.isDenied = false → ∀ s e, u.insert s = .error e ↔
    e = .slotsExhausted u.capacity ∧ u.count = u.capacity ∧ cap.toNat ≤ u.capacity
  refused : ∀ s e, u.insert s = .error e → u.enrol s = u
  grown_iff_capacity : u.hasGrown ↔ initial < u.capacity
  grown_iff_peak : u.hasGrown ↔ initial < peak rs t
  grown_iff_request : u.hasGrown ↔ ∃ qs r, qs ++ [r] <+: rs ∧
    (t.obeyAll qs).capacity < (t.obeyAll (qs ++ [r])).capacity
  numbered : u.capacity < UInt32.size
  head : ∀ i, u.firstFree = some i → i < u.capacity
  next : ∀ i j generation, u.slot? i = some (.free (some j) generation) → j < u.capacity
  target : u.capacity < cap.toNat → u.capacity + 1 ≤ u.target ∧ u.target ≤ cap.toNat

/-- On every run in which no slot is retired, the capacity is the first in the sequence of
capacities that is not below the highest count so far. Unless a growth is not granted,
an observer is refused exactly if every slot is used and the cap is reached; the table
then stays as it is. It has outgrown its initial slots exactly if that count has, or if a
request made it grow. All links lead to slots of the table, 32 bits number these, and
what a growth comes to lies between one slot more and the cap. -/
theorem capacity_of_peak (growth : UInt64) (cap : UInt32) (grant : Nat) (rs : List Request)
    (hfew : Few (history rs (empty growth cap grant))) :
    FitsPeak growth cap rs (empty growth cap grant) ((empty growth cap grant).obeyAll rs) := by
  set t := empty growth cap grant
  set u := t.obeyAll rs
  have hempty : t.Recalls [] := recalls_empty growth cap grant
  have hrun : u.Recalls (history rs t) := hempty.obeyAll rs hfew
  have hsize : u.stored.size = peak rs t :=
    (hempty.size_obeyAll rs hfew).trans (Nat.zero_max _)
  obtain ⟨n, hgrew⟩ := (grew_empty growth cap grant).obeyAll hempty rs hfew
  have hcapacity : u.capacity = capacityAfter growth cap n := hgrew.capacity
  have hcap : u.cap = cap := hgrew.limit
  have hneeded : ∀ m < n, capacityAfter growth cap m < peak rs t := hsize ▸ hgrew.needed
  have hreached : peak rs t ≤ u.capacity := hsize ▸ hrun.sound.fits
  have hgrown : u.hasGrown ↔ initial < u.capacity := by simp [hasGrown]
  refine
    { least := ⟨n, hcapacity, hcapacity ▸ hreached, hneeded⟩
      refused_iff := fun hd s e => ?_
      refused := fun s e => hrun.sound.enrol_of_refused
      grown_iff_capacity := hgrown
      grown_iff_peak := ?_
      grown_iff_request := hgrown.trans (capacity_lt_obeyAll_iff (t := t) rs)
      numbered := hrun.sound.capacity_lt
      head := hrun.sound.links.1
      next := hrun.sound.links.2
      target := fun hc => ?_ }
  · rw [insert_eq_error, hrun.nextTicket_eq_error_iff hd, hcap]
  · rw [hgrown]
    refine ⟨fun hlt => ?_, fun hlt => hlt.trans_le hreached⟩
    cases n with
    | zero => exact absurd (hcapacity ▸ hlt) (lt_irrefl _)
    | succ n => exact hneeded 0 n.succ_pos
  · rw [← hcap] at hc ⊢
    exact ⟨lt_target hc, min_le_right _ _⟩

/-- The sixth observer makes a table of five slots grow to nine, the cap, and the release
of another does not undo it. -/
theorem nine_slots_for_six :
    let rs : List Request := List.replicate 6 (.insert .live) ++ [.remove ⟨0, 0⟩]
    let t := empty 2 9 World.defaultGrant
    peak rs t = 6 ∧ (t.obeyAll rs).count = 5 ∧ (t.obeyAll rs).capacity = 9 ∧
      ∃ n, (t.obeyAll rs).capacity = capacityAfter 2 9 n ∧ peak rs t ≤ capacityAfter 2 9 n ∧
        ∀ m < n, capacityAfter 2 9 m < peak rs t := by
  intro rs t
  have hfew : Few (history rs t) := fun i => (releases_le_length _ i).trans_lt (by decide)
  exact ⟨by decide, by decide, by decide, (capacity_of_peak 2 9 World.defaultGrant rs hfew).least⟩

end SlotTable

end Custody

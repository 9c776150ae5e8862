import Custody.Proofs.SlotTable.Exhaustion

/-! Which ticket a slot table issues. The slots that were released and not issued since
form a stack, the latest release on top. The free list is that stack, followed by the
slots that were never used; growth, which comes when both have run out, only puts more
of these at the end. So a ticket depends on the tickets that were issued and released
before it, and not on when the table grew or by how much.
Main result: `latest_released_first`. -/

namespace Custody

namespace SlotTable

open Registry (Request Answer)

variable {t u : SlotTable}

/-! ### Histories -/

/-- What happens to the tickets of a table. -/
inductive Event where
  | issued (k : Ticket)
  | released (k : Ticket)
  deriving DecidableEq, Repr

namespace Event

/-- What the answer to a request says to have happened. -/
def reported : Request → Answer → List Event
  | .insert _, .issued k => [.issued k]
  | .remove k, .removed true => [.released k]
  | _, _ => []

/-- Whether slot `i` is released. -/
def releases (i : Nat) : Event → Bool
  | .released k => k.index.toNat = i
  | .issued _ => false

def restack (stack : List Nat) : Event → List Nat
  | .issued k => stack.erase k.index.toNat
  | .released k => k.index.toNat :: stack

end Event

/-- What the answers to a run of requests say to have happened. -/
def history : List Request → SlotTable → List Event
  | [], _ => []
  | r :: rs, t => Event.reported r (t.obey r).1 ++ history rs (t.obey r).2

def answers : List Request → SlotTable → List Answer
  | [], _ => []
  | r :: rs, t => (t.obey r).1 :: answers rs (t.obey r).2

/-- The highest count that a run comes to. -/
def peak : List Request → SlotTable → Nat
  | [], t => t.count
  | r :: rs, t => max t.count (peak rs (t.obey r).2)

/-- The slots that were released and not issued since, the latest release first. -/
def waiting (es : List Event) : List Nat := es.foldl Event.restack []

/-- How often slot `i` was released. -/
def releases (es : List Event) (i : Nat) : Nat := es.countP (Event.releases i)

@[simp] theorem waiting_issued (es : List Event) (k : Ticket) :
    waiting (es ++ [.issued k]) = (waiting es).erase k.index.toNat := by
  simp [waiting, Event.restack]

@[simp] theorem waiting_released (es : List Event) (k : Ticket) :
    waiting (es ++ [.released k]) = k.index.toNat :: waiting es := by
  simp [waiting, Event.restack]

@[simp] theorem releases_issued (es : List Event) (k : Ticket) (i : Nat) :
    releases (es ++ [.issued k]) i = releases es i := by
  simp [releases, Event.releases]

@[simp] theorem releases_released (es : List Event) (k : Ticket) (i : Nat) :
    releases (es ++ [.released k]) i = releases es i + if k.index.toNat = i then 1 else 0 := by
  simp [releases, Event.releases, List.countP_singleton]

theorem releases_le_length (es : List Event) (i : Nat) : releases es i ≤ es.length :=
  List.countP_le_length

theorem releases_le_append (es es' : List Event) (i : Nat) :
    releases es i ≤ releases (es ++ es') i := by
  simp [releases]

theorem count_le_peak (rs : List Request) (t : SlotTable) : t.count ≤ peak rs t := by
  cases rs with
  | nil => exact le_rfl
  | cons r rs => exact le_max_left _ _

/-! ### Paths -/

/-- There is one way to follow the links. -/
theorem Linked.unique {head : Option Nat} {path path' : List Nat} (h : t.Linked head path)
    (h' : t.Linked head path') : path = path' := by
  induction path generalizing head path' with
  | nil =>
    cases path' with
    | nil => rfl
    | cons j path' =>
      obtain ⟨hj, -⟩ := h'
      rw [show head = none from h] at hj
      cases hj
  | cons i path ih =>
    obtain ⟨rfl, next, generation, hs, hn⟩ := h
    cases path' with
    | nil => cases h'
    | cons j path' =>
      obtain ⟨hj, next', generation', hs', hn'⟩ := h'
      cases hj
      rw [hs] at hs'
      cases hs'
      rw [ih hn hn']

/-- Taking the first free slot leaves the rest of the path. -/
theorem Sound.linked_takeFree (h : t.Sound) {i : Nat} {path : List Nat}
    (hl : t.Linked t.firstFree (i :: path)) (s : Standing) :
    (t.takeFree s).Linked (t.takeFree s).firstFree path := by
  obtain ⟨hi, next, generation, hs, hpath⟩ := hl
  obtain ⟨next', generation', recycled, hw, hs', -, -, hrest⟩ := h.uncons hi
  obtain ⟨hlinked, hnot⟩ := hrest (.used generation s)
  rw [hs] at hs'
  cases hs'
  rw [hlinked.unique hpath] at hnot
  rw [takeFree_of_free hi hs]
  refine hpath.congr fun j hj => (slot?_write hw _ _).trans (if_neg ?_)
  rintro rfl
  exact hnot hj

/-- Writing over a used slot leaves every path of free slots as it is. -/
theorem Linked.write {head : Option Nat} {path : List Nat} (hl : t.Linked head path) {i : Nat}
    {generation : UInt32} {old : Standing} (hs : t.slot? i = some (.used generation old))
    (s : Slot) : (t.write i s).Linked head path := by
  refine hl.congr fun j hj => (slot?_write (.inl (lt_size_of_slot? hs rfl)) _ _).trans (if_neg ?_)
  rintro rfl
  obtain ⟨next, generation', hfree⟩ := hl.free_of_mem hj
  rw [hs] at hfree
  cases hfree

theorem size_remove (k : Ticket) : (t.remove k).2.stored.size = t.stored.size := by
  cases hk : t.find? k with
  | none => rw [remove_of_find?_eq_none hk]
  | some s =>
    have hlt := lt_size_of_slot? (slot?_of_find? hk) rfl
    simp [remove_of_find? hk, write_stored_of_lt hlt]

theorem Sound.count_enrol (h : t.Sound) {k : Ticket} (hk : t.nextTicket = .ok k) (s : Standing) :
    (t.enrol s).count = t.count + 1 := by
  rw [← (h.enrol s).card_tickets, h.tickets_enrol hk, Multiset.card_cons, h.card_tickets]

/-! ### What a table recalls of its history -/

/-- A slot is of its `n`-th generation. -/
def Dated (n : Nat) : Slot → Prop
  | .free _ generation => generation.toNat = n
  | .used generation _ => generation.toNat = n
  | .retired => False

/-- The table tells the stack of its released slots and how often each was released. -/
structure Recalls (t : SlotTable) (es : List Event) : Prop where
  sound : t.Sound
  roomy : initial ≤ t.capacity
  stacked : t.Linked t.firstFree (waiting es ++ t.unused)
  dated : ∀ i slot, t.stored[i]? = some slot → Dated (releases es i) slot
  fresh : ∀ i, t.stored.size ≤ i → releases es i = 0

theorem recalls_empty (growth : UInt64) (cap : UInt32) (grant : Nat) :
    (empty growth cap grant).Recalls [] where
  sound := sound_empty growth cap grant
  roomy := le_rfl
  stacked := by
    have hl := linked_fresh (t := empty growth cap grant) 0 initial (by simp [empty])
      (by simp [empty])
    simpa [waiting, empty, unused, initial] using hl
  dated := by simp [empty]
  fresh _ _ := rfl

namespace Recalls

variable {es : List Event}

theorem mem_waiting (h : t.Recalls es) {i : Nat} :
    i ∈ waiting es ↔ ∃ next generation, t.stored[i]? = some (.free next generation) := by
  obtain ⟨recycled, hl, -, hm⟩ := h.sound.threaded
  rw [List.append_cancel_right (h.stacked.unique hl), hm]

theorem retired_eq_zero (h : t.Recalls es) : t.retired = 0 := by
  refine countP_stored_eq_zero fun i slot hi => ?_
  cases slot with
  | retired => exact absurd (h.dated i _ hi) id
  | free | used => rfl

/-- The stored slots are the used ones and those that wait. -/
theorem count_eq_size (h : t.Recalls es) (hw : waiting es = []) : t.count = t.stored.size := by
  have hkinds := Slot.countP_kinds t.stored.toList
  have hfree : t.stored.toList.countP Slot.isFree = 0 := by
    refine countP_stored_eq_zero fun i slot hi => ?_
    cases slot with
    | free next generation =>
      have hwaits := h.mem_waiting.mpr ⟨next, generation, hi⟩
      rw [hw] at hwaits
      cases hwaits
    | used | retired => rfl
  have hretired : t.stored.toList.countP Slot.isRetired = 0 := h.retired_eq_zero
  rw [h.sound.counted]
  rw [Array.length_toList] at hkinds
  omega

theorem count_le_size (h : t.Recalls es) : t.count ≤ t.stored.size := by
  rw [h.sound.counted, ← Array.length_toList]
  exact List.countP_le_length

theorem reserve (h : t.Recalls es) (hu : t.reserve = .ok u) : u.Recalls es := by
  have hsound := h.sound.reserve hu
  have hstored := stored_of_reserve hu
  refine ⟨hsound, h.roomy.trans (capacity_le_of_reserve hu), ?_, ?_, ?_⟩
  · unfold SlotTable.reserve at hu
    split_ifs at hu with hf
    · -- the table has run out of slots, so that nothing waits
      have hnone : t.Linked t.firstFree [] := Option.isNone_iff_eq_none.mp hf
      have hempty := List.append_eq_nil_iff.mp (h.stacked.unique hnone)
      obtain ⟨recycled, hl, -, hm⟩ := hsound.threaded
      have hr : recycled = [] := by
        refine List.eq_nil_iff_forall_not_mem.mpr fun i hi => ?_
        obtain ⟨next, generation, hs⟩ := (hm i).mp hi
        rw [hstored] at hs
        have := h.mem_waiting.mpr ⟨next, generation, hs⟩
        simp [hempty.1] at this
      rwa [hempty.1, ← hr]
    · cases hu
      exact h.stacked
  · rw [hstored]
    exact h.dated
  · rw [hstored]
    exact h.fresh

/-- The next ticket is that of the slot on top of the stack, or else of the first slot
that was never used, and its generation is the number of times that the slot was
released. -/
theorem nextTicket (h : t.Recalls es) {k : Ticket} (hk : t.nextTicket = .ok k) :
    k.index.toNat = (waiting es).headD t.stored.size ∧
      k.generation.toNat = releases es k.index.toNat := by
  obtain ⟨u, next, hu, hsound, hf, hs⟩ := h.sound.nextTicket_ok hk
  have hru := h.reserve hu
  have hstored := stored_of_reserve hu
  have hl := hru.stacked
  rw [hf] at hl
  constructor
  · cases hw : waiting es with
    | cons i stack =>
      rw [hw] at hl
      obtain ⟨hi, -⟩ := hl
      exact Option.some.inj hi
    | nil =>
      have hcons : ∃ m, u.unused = List.range' u.stored.size m := ⟨_, rfl⟩
      obtain ⟨m, hm⟩ := hcons
      rw [hw, List.nil_append, hm] at hl
      cases m with
      | zero => cases hl
      | succ m =>
        rw [List.range'_succ] at hl
        obtain ⟨hi, -⟩ := hl
        rw [Option.some.inj hi, hstored]
        rfl
  · by_cases hlt : k.index.toNat < u.stored.size
    · rw [slot?_of_lt hlt, hstored] at hs
      exact h.dated _ _ hs
    · rw [slot?_of_le (by omega) (lt_capacity_of_slot? hsound.fits hs)] at hs
      injection hs with hs
      injection hs with _ hg
      rw [← hg, h.fresh _ (by rw [← hstored]; omega)]
      rfl

/-- Only a slot that was never used makes the stored slots more. -/
theorem size_enrol (h : t.Recalls es) {k : Ticket} (hk : t.nextTicket = .ok k) (s : Standing) :
    (t.enrol s).stored.size = max t.stored.size (k.index.toNat + 1) := by
  obtain ⟨u, next, hu, hsound, hf, hs⟩ := h.sound.nextTicket_ok hk
  have he : (t.enrol s).stored = (u.write k.index.toNat (.used k.generation s)).stored := by
    simp [SlotTable.enrol, hu, takeFree_of_free hf hs]
  rw [he, ← stored_of_reserve hu]
  rcases (hsound.head hf).1 with hlt | ⟨heq, -⟩
  · rw [write_stored_of_lt hlt, Array.size_setIfInBounds]
    omega
  · rw [heq, write_stored_size, Array.size_push]
    omega

theorem enrol (h : t.Recalls es) {k : Ticket} (hk : t.nextTicket = .ok k) (s : Standing) :
    (t.enrol s).Recalls (es ++ [.issued k]) := by
  have hticket := h.nextTicket hk
  have hsize := h.size_enrol hk s
  obtain ⟨u, next, hu, hsound, hf, hs⟩ := h.sound.nextTicket_ok hk
  have hru := h.reserve hu
  have hw := (hsound.head hf).1
  have hstored := stored_of_reserve hu
  have he : t.enrol s = u.takeFree s := by simp [SlotTable.enrol, hu]
  refine ⟨h.sound.enrol s, h.roomy.trans (capacity_le_enrol s), ?_, ?_, ?_⟩
  · have hl := hru.stacked
    rw [waiting_issued, he]
    cases hstack : waiting es with
    | cons i stack =>
      rw [hstack] at hl hticket
      obtain rfl : k.index.toNat = i := hticket.1
      obtain ⟨_, _, hfree⟩ := hru.mem_waiting.mp (hstack ▸ List.mem_cons_self)
      have hlt := (Array.getElem?_eq_some_iff.mp hfree).1
      have hunused : (u.takeFree s).unused = u.unused := by
        rw [takeFree_of_free hf hs, ← unused_write_of_lt hlt (.used k.generation s)]
        rfl
      rw [List.erase_cons_head, hunused]
      exact hsound.linked_takeFree hl s
    | nil =>
      rw [hstack] at hl hticket
      have hindex : k.index.toNat = u.stored.size := by rw [hstored]; exact hticket.1
      have hc : u.stored.size < u.capacity := hindex ▸ lt_capacity_of_slot? hsound.fits hs
      rw [List.nil_append, unused_eq_cons hc (.used k.generation s), ← hindex] at hl
      have hunused :
          (u.takeFree s).unused = (u.write k.index.toNat (.used k.generation s)).unused := by
        rw [takeFree_of_free hf hs]
        rfl
      rw [List.erase_nil, List.nil_append, hunused]
      exact hsound.linked_takeFree hl s
  · intro i slot hi
    have hwrite : (t.enrol s).stored = (u.write k.index.toNat (.used k.generation s)).stored := by
      rw [he, takeFree_of_free hf hs]
    rw [hwrite, stored_write hw, hstored] at hi
    rw [releases_issued]
    split_ifs at hi with heq
    · cases hi
      rw [heq]
      exact hticket.2
    · exact h.dated i slot hi
  · intro i hi
    rw [releases_issued]
    exact h.fresh i (by omega)

theorem remove (h : t.Recalls es) {k : Ticket} {s : Standing} (hk : t.find? k = some s)
    (hfew : ∀ i, releases (es ++ [.released k]) i < UInt32.size) :
    (t.remove k).2.Recalls (es ++ [.released k]) := by
  have hs := slot?_of_find? hk
  have hlt := lt_size_of_slot? hs rfl
  have hold := hs
  rw [slot?_of_lt hlt] at hold
  have hage : k.generation.toNat = releases es k.index.toNat := h.dated _ _ hold
  have hnext : (k.generation + 1).toNat = releases es k.index.toNat + 1 := by
    have := hfew k.index.toNat
    rw [releases_released, if_pos rfl] at this
    rw [UInt32.toNat_add, hage]
    exact Nat.mod_eq_of_lt this
  have hg : k.generation + 1 ≠ 0 := by
    intro h0
    rw [h0] at hnext
    cases hnext
  have hslot : t.released k.generation = .free t.firstFree (k.generation + 1) := if_neg hg
  have hl := h.stacked.write hs (.free t.firstFree (k.generation + 1))
  have hw : t.Writable k.index.toNat := .inl hlt
  have hr := remove_of_find? hk
  rw [hslot, if_neg hg] at hr
  have hstored : (t.remove k).2.stored =
      (t.write k.index.toNat (.free t.firstFree (k.generation + 1))).stored := by rw [hr]
  refine ⟨h.sound.remove k, by simpa using h.roomy, ?_, ?_, ?_⟩
  · have hunused : (t.remove k).2.unused = t.unused := by
      rw [hr, ← unused_write_of_lt hlt (.free t.firstFree (k.generation + 1))]
      rfl
    rw [hunused, waiting_released, hr]
    refine ⟨rfl, t.firstFree, k.generation + 1, (slot?_write hw _ _).trans (if_pos rfl), ?_⟩
    exact Linked.congr (t := t.write _ (.free _ _)) (fun _ _ => rfl) hl
  · intro i slot hi
    rw [hstored, stored_write hw] at hi
    rw [releases_released]
    split_ifs at hi with heq
    · cases hi
      rw [heq, if_pos rfl]
      exact hnext
    · rw [if_neg (Ne.symm heq)]
      exact h.dated i slot hi
  · intro i hi
    rw [hstored, write_stored_of_lt hlt, Array.size_setIfInBounds] at hi
    rw [releases_released, if_neg (by omega)]
    exact h.fresh i hi

theorem update (h : t.Recalls es) (f : Ticket → Standing → Standing) : (t.update f).Recalls es := by
  have hunused : (t.update f).unused = t.unused := by simp [unused, SlotTable.update]
  refine ⟨h.sound.update f, h.roomy, ?_, ?_, ?_⟩
  · rw [hunused]
    refine h.stacked.congr fun i hi => ?_
    obtain ⟨next, generation, hs⟩ := h.stacked.free_of_mem hi
    rw [slot?_update, hs]
    rfl
  · intro i slot hi
    simp only [SlotTable.update, Array.getElem?_mapIdx, Option.map_eq_some_iff] at hi
    obtain ⟨old, hold, rfl⟩ := hi
    have hdated := h.dated i old hold
    cases old <;> exact hdated
  · simpa [SlotTable.update] using h.fresh

end Recalls

/-! ### Requests -/

/-- A request issues a ticket, releases one, or does neither and leaves every slot to its
occupant. -/
theorem Sound.obey_reported (h : t.Sound) (r : Request) :
    (∃ s k, r = .insert s ∧ t.nextTicket = .ok k ∧ t.obey r = (.issued k, t.enrol s)) ∨
    (∃ k s, r = .remove k ∧ t.find? k = some s ∧ t.obey r = (.removed true, (t.remove k).2)) ∨
    Event.reported r (t.obey r).1 = [] ∧ ∃ f, (t.obey r).2 = t.update f := by
  cases r with
  | insert s =>
    cases hk : t.nextTicket with
    | error e =>
      have ho : t.obey (.insert s) = (.refused e, t) := by
        simp [SlotTable.obey, SlotTable.insert, hk, Except.map]
      rw [ho]
      exact .inr (.inr ⟨rfl, _, update_eq_self.symm⟩)
    | ok k =>
      exact .inl ⟨s, k, rfl, rfl, by simp [SlotTable.obey, SlotTable.insert, hk, Except.map]⟩
  | remove k =>
    cases hk : t.find? k with
    | none =>
      have ho : t.obey (.remove k) = (.removed false, t) := by
        simp [SlotTable.obey, remove_of_find?_eq_none hk]
      rw [ho]
      exact .inr (.inr ⟨rfl, _, update_eq_self.symm⟩)
    | some s => exact .inr (.inl ⟨k, s, rfl, hk, by simp [SlotTable.obey, remove_fst, hk]⟩)
  | standing | isLive => exact .inr (.inr ⟨rfl, _, update_eq_self.symm⟩)
  | dismissAll => exact .inr (.inr ⟨rfl, fun _ _ => .gone, rfl⟩)
  | visit f =>
    simp only [SlotTable.obey, h.visit_eq]
    exact .inr (.inr ⟨rfl, _, rfl⟩)

/-- Whether slots are released less often than there are generations. -/
def Few (es : List Event) : Prop := ∀ i, releases es i < UInt32.size

theorem Few.of_append {es es' : List Event} (h : Few (es ++ es')) : Few es :=
  fun i => (releases_le_append es es' i).trans_lt (h i)

variable {es : List Event}

theorem Recalls.obey (h : t.Recalls es) (r : Request)
    (hfew : Few (es ++ Event.reported r (t.obey r).1)) :
    (t.obey r).2.Recalls (es ++ Event.reported r (t.obey r).1) := by
  rcases h.sound.obey_reported r with ⟨s, k, rfl, hk, ho⟩ | ⟨k, s, rfl, hk, ho⟩ | ⟨he, f, ho⟩
  · rw [ho]
    exact h.enrol hk s
  · rw [ho] at hfew ⊢
    exact h.remove hk hfew
  · rw [he, ho, List.append_nil]
    exact h.update f

theorem Recalls.obeyAll (h : t.Recalls es) (rs : List Request) (hfew : Few (es ++ history rs t)) :
    (t.obeyAll rs).Recalls (es ++ history rs t) := by
  induction rs generalizing t es with
  | nil => simpa [history, SlotTable.obeyAll] using h
  | cons r rs ih =>
    rw [history, ← List.append_assoc] at hfew ⊢
    exact ih (h.obey r hfew.of_append) hfew

/-! ### The highest count -/

/-- A slot comes into use when all that were used before are used. -/
theorem Recalls.size_obey (h : t.Recalls es) (r : Request)
    (hfew : Few (es ++ Event.reported r (t.obey r).1)) :
    (t.obey r).2.stored.size = max t.stored.size (t.obey r).2.count := by
  have hafter := (h.obey r hfew).count_le_size
  rcases h.sound.obey_reported r with ⟨s, k, rfl, hk, ho⟩ | ⟨k, s, rfl, hk, ho⟩ | ⟨he, f, ho⟩
  · simp only [ho] at hafter ⊢
    have hsize := h.size_enrol hk s
    obtain ⟨hindex, -⟩ := h.nextTicket hk
    cases hw : waiting es with
    | cons i stack =>
      obtain ⟨_, _, hi⟩ := h.mem_waiting.mp (hw ▸ List.mem_cons_self)
      have hlt := (Array.getElem?_eq_some_iff.mp hi).1
      rw [hw, List.headD_cons] at hindex
      omega
    | nil =>
      have hcount := h.count_eq_size hw
      have hcount' := h.sound.count_enrol hk s
      rw [hw, List.headD_nil] at hindex
      omega
  · simp only [ho] at hafter ⊢
    have hsize := size_remove (t := t) k
    omega
  · simp only [ho] at hafter ⊢
    have hsize : (t.update f).stored.size = t.stored.size := by simp [SlotTable.update]
    omega

/-- The stored slots are as many as were ever used at once. -/
theorem Recalls.size_obeyAll (h : t.Recalls es) (rs : List Request)
    (hfew : Few (es ++ history rs t)) :
    (t.obeyAll rs).stored.size = max t.stored.size (peak rs t) := by
  induction rs generalizing t es with
  | nil => exact (max_eq_left h.count_le_size).symm
  | cons r rs ih =>
    rw [history, ← List.append_assoc] at hfew
    have hstep := h.size_obey r hfew.of_append
    have hrest := ih (h.obey r hfew.of_append) hfew
    have hcount := h.count_le_size
    have hpeak := count_le_peak rs (t.obey r).2
    rw [peak]
    change ((t.obey r).2.obeyAll rs).stored.size = _
    omega

/-! ### Two tables -/

/-- Nobody is refused for a growth that the allocator does not grant. -/
def isDenied (t : SlotTable) : Bool :=
  t.firstFree.isNone && t.capacity < t.cap.toNat && t.grant < t.target * slotBytes

def Request.isInsert : Request → Bool
  | .insert _ => true
  | _ => false

/-- Whether the allocator grants every growth that a run of requests asks for. -/
def isGranted : List Request → SlotTable → Bool
  | [], _ => true
  | r :: rs, t => !(Request.isInsert r && t.isDenied) && isGranted rs (t.obey r).2

/-- Unless a growth is not granted, an observer is refused exactly if as many are
registered as the cap allows, and as every table has slots for at the start. -/
theorem Recalls.nextTicket_eq_error_iff (h : t.Recalls es) (hd : t.isDenied = false)
    {e : HeapRefusal} :
    t.nextTicket = .error e ↔
      e = .slotsExhausted t.capacity ∧ t.count = t.capacity ∧ t.cap.toNat ≤ t.capacity := by
  rw [← insert_eq_error (s := .live), h.sound.insert_eq_error_iff, h.retired_eq_zero, Nat.add_zero]
  refine and_congr_right fun _ => and_congr_right fun hfull => ?_
  refine ⟨fun hno => hno.elim id fun hgrant => ?_, .inl⟩
  have hnone : t.firstFree = none := by
    rw [h.sound.firstFree_eq_none_iff, h.retired_eq_zero]
    exact hfull
  by_contra hc
  simp [isDenied, hnone, hgrant, Nat.not_le.mp hc] at hd

/-- Two tables that came to the same by the same history. -/
structure Alike (es : List Event) (t u : SlotTable) : Prop where
  left : t.Recalls es
  right : u.Recalls es
  find? : t.find? = u.find?
  size : t.stored.size = u.stored.size
  cap : t.cap = u.cap

/-- The map determines the entries. -/
theorem Sound.entries_congr (ht : t.Sound) (hu : u.Sound) (h : t.find? = u.find?) :
    t.entries = u.entries := by
  have hperm : t.entries.Perm u.entries := by
    refine (List.perm_ext_iff_of_nodup ht.nodup_tickets.of_map hu.nodup_tickets.of_map).mpr ?_
    rintro ⟨k, s⟩
    rw [ht.mem_entries, hu.mem_entries, h]
  refine hperm.eq_of_pairwise (fun a b _ _ hab hba => ?_) ht.pairwise_entries hu.pairwise_entries
  exact absurd (UInt32.lt_trans hab hba) (UInt32.lt_irrefl _)

namespace Alike

theorem symm (h : Alike es t u) : Alike es u t :=
  ⟨h.right, h.left, h.find?.symm, h.size.symm, h.cap.symm⟩

theorem entries (h : Alike es t u) : t.entries = u.entries :=
  h.left.sound.entries_congr h.right.sound h.find?

theorem count (h : Alike es t u) : t.count = u.count := by
  rw [h.left.sound.count_eq, h.right.sound.count_eq, h.entries]

theorem refused (h : Alike es t u) (ht : t.isDenied = false) (hu : u.isDenied = false)
    {e : HeapRefusal} (he : t.nextTicket = .error e) : u.nextTicket = .error e := by
  obtain ⟨rfl, hfull, hcap⟩ := (h.left.nextTicket_eq_error_iff ht).mp he
  have hroom := h.right.sound.count_add_retired_le
  have hbounded := h.left.sound.bounded
  have hbounded' := h.right.sound.bounded
  have hroomy := h.left.roomy
  have hroomy' := h.right.roomy
  have hcount := h.count
  rw [← h.cap] at hbounded'
  have hsame : u.capacity = t.capacity := by omega
  rw [h.right.nextTicket_eq_error_iff hu, hsame, ← h.cap]
  exact ⟨rfl, by omega, hcap⟩

theorem issued (h : Alike es t u) {k j : Ticket} (hk : t.nextTicket = .ok k)
    (hj : u.nextTicket = .ok j) : k = j := by
  obtain ⟨hindex, hgeneration⟩ := h.left.nextTicket hk
  obtain ⟨hindex', hgeneration'⟩ := h.right.nextTicket hj
  rw [h.size, ← hindex'] at hindex
  rw [hindex, ← hgeneration'] at hgeneration
  exact congrArg₂ Ticket.mk (UInt32.toNat_inj.mp hindex) (UInt32.toNat_inj.mp hgeneration)

theorem nextTicket (h : Alike es t u) (ht : t.isDenied = false) (hu : u.isDenied = false) :
    t.nextTicket = u.nextTicket := by
  cases hk : t.nextTicket with
  | error e => exact (h.refused ht hu hk).symm
  | ok k =>
    cases hj : u.nextTicket with
    | error e =>
      rw [h.symm.refused hu ht hj] at hk
      cases hk
    | ok j => rw [h.issued hk hj]

/-- Asked for the same, they answer the same and come to the same. -/
theorem obey (h : Alike es t u) (r : Request) (ht : Request.isInsert r → t.isDenied = false)
    (hu : Request.isInsert r → u.isDenied = false)
    (hfew : Few (es ++ Event.reported r (t.obey r).1)) :
    (t.obey r).1 = (u.obey r).1 ∧
      Alike (es ++ Event.reported r (t.obey r).1) (t.obey r).2 (u.obey r).2 := by
  have hsame : (t.obey r).1 = (u.obey r).1 ∧ (t.obey r).2.find? = (u.obey r).2.find? ∧
      (t.obey r).2.stored.size = (u.obey r).2.stored.size := by
    cases r with
    | insert s =>
      have hnext := h.nextTicket (ht rfl) (hu rfl)
      cases hk : t.nextTicket with
      | error e =>
        simp only [SlotTable.obey, SlotTable.insert, ← hnext, hk, Except.map, true_and]
        exact ⟨h.find?, h.size⟩
      | ok k =>
        have hj := hnext ▸ hk
        simp only [SlotTable.obey, SlotTable.insert, ← hnext, hk, Except.map, true_and]
        rw [h.left.sound.find?_enrol hk, h.right.sound.find?_enrol hj, h.find?,
          h.left.size_enrol hk, h.right.size_enrol hj, h.size]
        exact ⟨rfl, rfl⟩
    | remove k =>
      simp only [SlotTable.obey, remove_fst, find?_remove, size_remove, h.find?, h.size, and_self]
    | standing k | isLive k =>
      refine ⟨?_, h.find?, h.size⟩
      simp only [SlotTable.obey, SlotTable.isLive, h.find?]
    | dismissAll =>
      simp only [SlotTable.obey, SlotTable.dismissAll, liveCount, h.entries, true_and]
      refine ⟨?_, by simpa [SlotTable.update] using h.size⟩
      funext k
      rw [find?_update, find?_update, h.find?]
    | visit f =>
      simp only [SlotTable.obey, h.left.sound.visit_eq, h.right.sound.visit_eq, h.entries, true_and]
      refine ⟨?_, by simpa [SlotTable.update] using h.size⟩
      funext k
      rw [find?_update, find?_update, h.find?]
  obtain ⟨hanswer, hfind, hsize⟩ := hsame
  have hright := h.right.obey r (hanswer ▸ hfew)
  rw [← hanswer] at hright
  have hcap : ∀ {v : SlotTable}, v.Sound → (v.obey r).2.cap = v.cap := fun hv =>
    congrArg (·.2.1) (hv.settings_obey r)
  refine ⟨hanswer, h.left.obey r hfew, hright, hfind, hsize, ?_⟩
  rw [hcap h.left.sound, hcap h.right.sound, h.cap]

theorem answers (h : Alike es t u) (rs : List Request) (ht : isGranted rs t) (hu : isGranted rs u)
    (hfew : Few (es ++ history rs t)) : answers rs t = answers rs u := by
  induction rs generalizing t u es with
  | nil => rfl
  | cons r rs ih =>
    simp only [isGranted, Bool.and_eq_true, Bool.not_eq_true', Bool.and_eq_false_imp] at ht hu
    rw [history, ← List.append_assoc] at hfew
    obtain ⟨hanswer, hnext⟩ := h.obey r ht.1 hu.1 hfew.of_append
    rw [SlotTable.answers, SlotTable.answers, hanswer, ih hnext ht.2 hu.2 hfew]

end Alike

/-- Tables that differ in their growth factor and their allocator answer every run of
requests alike, unless a growth is not granted. The ticket that a table issues is that
of the slot released last and not issued since, under the number of its releases, or, if
no released slot waits, the first ticket of the slot numbered by the highest count that
there has been. No slot is released so often here that it is retired. -/
theorem latest_released_first (growth growth' : UInt64) (cap : UInt32) (grant grant' : Nat)
    (rs : List Request) (hfew : Few (history rs (empty growth cap grant))) :
    let t := empty growth cap grant
    let u := empty growth' cap grant'
    (isGranted rs t → isGranted rs u → answers rs t = answers rs u) ∧
    ∀ s k v, (t.obeyAll rs).insert s = .ok (k, v) →
      (∀ i stack, waiting (history rs t) = i :: stack →
        k.index.toNat = i ∧ k.generation.toNat = releases (history rs t) i) ∧
      (waiting (history rs t) = [] → k.index.toNat = peak rs t ∧ k.generation = 0) := by
  intro t u
  have hempty : t.Recalls [] := recalls_empty growth cap grant
  have halike : Alike [] t u :=
    ⟨hempty, recalls_empty growth' cap grant', funext fun k => by simp [t, u], rfl, rfl⟩
  refine ⟨fun ht hu => halike.answers rs ht hu hfew, fun s k v hinsert => ?_⟩
  have hrun : (t.obeyAll rs).Recalls (history rs t) := hempty.obeyAll rs hfew
  have hsize : (t.obeyAll rs).stored.size = peak rs t :=
    (hempty.size_obeyAll rs hfew).trans (Nat.zero_max _)
  have hk : (t.obeyAll rs).nextTicket = .ok k := by
    unfold SlotTable.insert at hinsert
    cases hn : (t.obeyAll rs).nextTicket with
    | error e => simp [hn, Except.map] at hinsert
    | ok j => simp_all [Except.map]
  obtain ⟨hindex, hgeneration⟩ := hrun.nextTicket hk
  constructor
  · intro i stack hw
    rw [hw, List.headD_cons] at hindex
    exact ⟨hindex, hindex ▸ hgeneration⟩
  · intro hw
    rw [hw, List.headD_nil] at hindex
    rw [hrun.fresh _ hindex.ge] at hgeneration
    exact ⟨hindex.trans hsize, UInt32.toNat_inj.mp hgeneration⟩

/-- Six observers make one table grow to six slots and the other to twelve. When the
second and then the fourth were released, both issue the fourth again. -/
theorem fourth_before_second :
    let rs : List Request := List.replicate 6 (.insert .live) ++ [.remove ⟨1, 0⟩, .remove ⟨3, 0⟩]
    let t := empty 1 12 World.defaultGrant
    let u := empty 4 12 World.defaultGrant
    ((t.obeyAll rs).capacity, (u.obeyAll rs).capacity) = (6, 12) ∧ answers rs t = answers rs u ∧
      ((t.obeyAll rs).insert .live).map (·.1) = .ok ⟨3, 1⟩ ∧
      ∀ s k v, (t.obeyAll rs).insert s = .ok (k, v) → k.index.toNat = 3 ∧
      k.generation.toNat = 1 := by
  intro rs t u
  have hfew : Few (history rs t) := fun i => (releases_le_length _ i).trans_lt (by decide)
  obtain ⟨hanswers, hticket⟩ :=
    latest_released_first 1 4 12 World.defaultGrant World.defaultGrant rs hfew
  have hw : waiting (history rs t) = [3, 1] := by decide
  exact ⟨by decide, hanswers (by decide) (by decide), by decide,
    fun s k v hk => (hticket s k v hk).1 3 [1] hw⟩

end SlotTable

end Custody

import Custody.Proofs.SlotTable.FreeList
import Mathlib.Data.Multiset.AddSub
import Mathlib.Data.Set.Card

/-! A slot table as a finite map from tickets to standings: what every operation does
to `find?`, and `entries` as the list of the map by slot index. -/

namespace Custody

namespace SlotTable

variable {t : SlotTable}

/-! ### Look-ups -/

/-- The standing in a slot, for the ticket that names the slot and a generation. -/
def standingIn (generation : UInt32) : Slot → Option Standing
  | .used g s => if g = generation then some s else none
  | _ => none

theorem find?_eq (k : Ticket) :
    t.find? k = (t.slot? k.index.toNat).bind (standingIn k.generation) := by
  unfold find?
  rcases t.slot? k.index.toNat with _ | _ | _ | _ <;> rfl

theorem find?_congr {u : SlotTable} {k : Ticket}
    (h : u.slot? k.index.toNat = t.slot? k.index.toNat) : u.find? k = t.find? k := by
  rw [find?_eq, find?_eq, h]

/-- Slots that were never used hold nobody. -/
theorem find?_eq_stored (k : Ticket) :
    t.find? k = t.stored[k.index.toNat]?.bind (standingIn k.generation) := by
  rw [find?_eq]
  by_cases hi : k.index.toNat < t.stored.size
  · rw [slot?_of_lt hi]
  · rw [Array.getElem?_eq_none (by omega)]
    simp only [slot?, hi, if_false]
    split_ifs <;> rfl

theorem find?_update (f : Ticket → Standing → Standing) (k : Ticket) :
    (t.update f).find? k = (t.find? k).map (f k) := by
  rw [find?_eq, find?_eq, slot?_update]
  rcases t.slot? k.index.toNat with _ | _ | ⟨g, s⟩ | _
  · rfl
  · rfl
  · by_cases hg : g = k.generation
    · simp [standingIn, hg]
    · simp [standingIn, hg]
  · rfl

@[simp] theorem find?_empty (growth : UInt64) (cap : UInt32) (grant : Nat) (k : Ticket) :
    (empty growth cap grant).find? k = none := by
  simp only [find?_eq, slot?, empty]
  split_ifs <;> simp_all [standingIn]

/-- Writing over a slot changes the standing of one ticket at most, if the slot had no
other occupant and gets no other. -/
theorem find?_write {k : Ticket} {s : Slot} {old : Slot} (hw : t.Writable k.index.toNat)
    (ho : t.slot? k.index.toNat = some old)
    (hold : ∀ g, g ≠ k.generation → standingIn g old = none)
    (hs : ∀ g, g ≠ k.generation → standingIn g s = none) :
    (t.write k.index.toNat s).find? = Function.update t.find? k (standingIn k.generation s) := by
  funext j
  by_cases hj : j = k
  · subst hj
    rw [Function.update_self, find?_eq, slot?_write hw, if_pos rfl]
    rfl
  · rw [Function.update_of_ne hj, find?_eq, find?_eq, slot?_write hw]
    split_ifs with hi
    · have hg : j.generation ≠ k.generation := by
        intro hg
        apply hj
        obtain ⟨i, g⟩ := j
        obtain ⟨i', g'⟩ := k
        simp_all [UInt32.toNat_inj]
      rw [hi, ho]
      simp [hold _ hg, hs _ hg]
    · rfl

/-! ### Issuing a ticket -/

theorem firstFree_of_reserve {u : SlotTable} (hu : t.reserve = .ok u) :
    ∃ i, u.firstFree = some i := by
  unfold reserve at hu
  split_ifs at hu with hf
  · unfold grow at hu
    split_ifs at hu
    cases hu
    exact ⟨_, rfl⟩
  · cases hu
    exact Option.ne_none_iff_exists'.mp (by simpa using hf)

/-- A ticket is refused only for want of a slot. -/
theorem slotsExhausted_of_nextTicket {e : HeapRefusal} (h : t.nextTicket = .error e) :
    ∃ n, e = .slotsExhausted n := by
  unfold nextTicket at h
  cases hu : t.reserve with
  | error e' =>
    obtain rfl : e' = e := by simpa [hu, Except.bind] using h
    unfold reserve grow at hu
    split_ifs at hu <;> exact ⟨_, (Except.error.inj hu).symm⟩
  | ok u =>
    have hhead : u.headTicket = .error e := by simpa [hu, Except.bind] using h
    unfold headTicket at hhead
    split at hhead
    · exact ⟨_, (Except.error.inj hhead).symm⟩
    · split at hhead
      · cases hhead
      · exact ⟨_, (Except.error.inj hhead).symm⟩

/-- Either the table cannot grow, or the next ticket is that of a free slot. -/
theorem Sound.nextTicket_cases (h : t.Sound) :
    (∃ e, t.reserve = .error e ∧ t.nextTicket = .error e) ∨
      ∃ u k next, t.reserve = .ok u ∧ t.nextTicket = .ok k ∧ u.Sound ∧
        u.firstFree = some k.index.toNat ∧
          u.slot? k.index.toNat = some (.free next k.generation) := by
  unfold nextTicket
  cases hu : t.reserve with
  | error e => exact .inl ⟨e, rfl, rfl⟩
  | ok u =>
    obtain ⟨i, hi⟩ := firstFree_of_reserve hu
    obtain ⟨-, next, generation, hs⟩ := (h.reserve hu).head hi
    have hn : (UInt32.ofNat i).toNat = i := UInt32.toNat_ofNat_of_lt' ((h.reserve hu).slot_lt hs)
    refine .inr ⟨u, ⟨UInt32.ofNat i, generation⟩, next, rfl, ?_, h.reserve hu, ?_, ?_⟩
    · change u.headTicket = _
      simp [headTicket, hi, hs]
    · rw [hn, hi]
    · rw [hn, hs]

theorem Sound.nextTicket_ok (h : t.Sound) {k : Ticket} (hk : t.nextTicket = .ok k) :
    ∃ u next, t.reserve = .ok u ∧ u.Sound ∧ u.firstFree = some k.index.toNat ∧
      u.slot? k.index.toNat = some (.free next k.generation) := by
  rcases h.nextTicket_cases with ⟨e, -, he⟩ | ⟨u, k', next, hu, hk', hrest⟩
  · rw [he] at hk
    cases hk
  · rw [hk'] at hk
    cases hk
    exact ⟨u, next, hu, hrest⟩

/-- A table that has no ticket to give stays as it is. -/
theorem Sound.enrol_of_error (h : t.Sound) {e : HeapRefusal} (he : t.nextTicket = .error e)
    (s : Standing) : t.enrol s = t := by
  rcases h.nextTicket_cases with ⟨e', hr, -⟩ | ⟨u, k, next, -, hk, -⟩
  · simp [SlotTable.enrol, hr]
  · rw [hk] at he
    cases he

/-- Growth leaves the slots that were used as they are. -/
theorem stored_of_reserve {u : SlotTable} (hu : t.reserve = .ok u) : u.stored = t.stored := by
  unfold reserve at hu
  split_ifs at hu
  · unfold grow at hu
    split_ifs at hu
    cases hu
    rfl
  · cases hu
    rfl

theorem capacity_le_of_reserve {u : SlotTable} (hu : t.reserve = .ok u) :
    t.capacity ≤ u.capacity := by
  unfold reserve at hu
  split_ifs at hu
  · unfold grow at hu
    split_ifs at hu with hc
    cases hu
    exact (lt_target (by omega)).le
  · cases hu
    rfl

theorem find?_of_reserve {u : SlotTable} (hu : t.reserve = .ok u) (k : Ticket) :
    u.find? k = t.find? k := by
  rw [find?_eq_stored, find?_eq_stored, stored_of_reserve hu]

/-- The next ticket is one that nobody holds. -/
theorem Sound.find?_nextTicket (h : t.Sound) {k : Ticket} (hk : t.nextTicket = .ok k) :
    t.find? k = none := by
  obtain ⟨u, next, hu, -, -, hs⟩ := h.nextTicket_ok hk
  rw [← find?_of_reserve hu, find?_eq, hs]
  rfl

/-- A ticket that is issued is entered into the map. -/
theorem Sound.find?_enrol (h : t.Sound) {k : Ticket} (hk : t.nextTicket = .ok k) (s : Standing) :
    (t.enrol s).find? = Function.update t.find? k (some s) := by
  obtain ⟨u, next, hu, hsound, hf, hs⟩ := h.nextTicket_ok hk
  have hw := (hsound.head hf).1
  have hmap : u.find? = t.find? := funext (find?_of_reserve hu)
  have hwrite := find?_write hw hs (s := .used k.generation s) (by simp [standingIn])
    (fun g hg => by simp [standingIn, Ne.symm hg])
  have he : t.enrol s = u.takeFree s := by simp [SlotTable.enrol, hu]
  rw [← hmap, he, takeFree_of_free hf hs]
  funext j
  refine (find?_congr rfl).trans ((congrFun hwrite j).trans ?_)
  simp [standingIn]

/-! ### Giving a ticket back -/

theorem standingIn_released (g g' : UInt32) : standingIn g (t.released g') = none := by
  unfold released
  split_ifs <;> rfl

/-- Giving back a ticket takes it out of the map. -/
theorem find?_remove (k : Ticket) : (t.remove k).2.find? = Function.update t.find? k none := by
  cases hk : t.find? k with
  | none =>
    rw [remove_of_find?_eq_none hk, ← hk, Function.update_eq_self]
  | some s =>
    have hs := slot?_of_find? hk
    have hwrite := find?_write (.inl (lt_size_of_slot? hs rfl)) hs (s := t.released k.generation)
      (fun g hg => by simp [standingIn, Ne.symm hg]) (fun g _ => standingIn_released g _)
    rw [remove_of_find? hk]
    funext j
    refine (find?_congr rfl).trans ((congrFun hwrite j).trans ?_)
    rw [standingIn_released]

theorem remove_fst (k : Ticket) : (t.remove k).1 = (t.find? k).isSome := by
  cases hk : t.find? k with
  | none => simp [remove_of_find?_eq_none hk]
  | some s => simp [remove_of_find? hk]

@[simp] theorem remove_capacity (k : Ticket) : (t.remove k).2.capacity = t.capacity := by
  cases hk : t.find? k with
  | none => rw [remove_of_find?_eq_none hk]
  | some s => simp [remove_of_find? hk]

@[simp] theorem takeFree_capacity (s : Standing) : (t.takeFree s).capacity = t.capacity := by
  unfold takeFree
  split
  · rfl
  · split <;> simp

/-- A table never shrinks. -/
theorem capacity_le_enrol (s : Standing) : t.capacity ≤ (t.enrol s).capacity := by
  unfold enrol
  split
  · rename_i u hu
    simpa using capacity_le_of_reserve hu
  · exact le_rfl

/-! ### The entries -/

/-- The entries of slots numbered from `n` on. -/
def entriesFrom (n : Nat) (slots : List Slot) : List (Ticket × Standing) :=
  (slots.zipIdx n).filterMap fun p => entryAt p.2 p.1

theorem entries_eq : t.entries = entriesFrom 0 t.stored.toList := rfl

theorem entryAt_eq_some_iff {i : Nat} {slot : Slot} {e : Ticket × Standing} :
    entryAt i slot = some e ↔
      ∃ g s, slot = .used g s ∧ e = (⟨UInt32.ofNat i, g⟩, s) := by
  cases slot <;> simp [entryAt, eq_comm]

theorem mem_entriesFrom {n : Nat} {slots : List Slot} {e : Ticket × Standing} :
    e ∈ entriesFrom n slots ↔ ∃ i g s, slots[i]? = some (.used g s) ∧
      e = (⟨UInt32.ofNat (n + i), g⟩, s) := by
  simp only [entriesFrom, List.mem_filterMap, Prod.exists, entryAt_eq_some_iff]
  constructor
  · rintro ⟨slot, j, hj, g, s, rfl, rfl⟩
    obtain ⟨hle, hi⟩ := List.mk_mem_zipIdx_iff_le_and_getElem?_sub.mp hj
    exact ⟨j - n, g, s, hi, by rw [Nat.add_sub_cancel' hle]⟩
  · rintro ⟨i, g, s, hi, rfl⟩
    refine ⟨_, n + i, List.mk_mem_zipIdx_iff_le_and_getElem?_sub.mpr ⟨by omega, ?_⟩, g, s, rfl, rfl⟩
    rwa [Nat.add_sub_cancel_left]

/-- The entries are the map. -/
theorem Sound.mem_entries (h : t.Sound) {k : Ticket} {s : Standing} :
    (k, s) ∈ t.entries ↔ t.find? k = some s := by
  have hindex : ∀ i, t.stored.toList[i]? ≠ none → (UInt32.ofNat i).toNat = i := by
    intro i hi
    have hlt : i < t.stored.size := by simpa using hi
    exact UInt32.toNat_ofNat_of_lt' (h.lt_size (hlt.trans_le h.fits))
  rw [entries_eq, mem_entriesFrom, find?_eq_stored]
  constructor
  · rintro ⟨i, g, s, hi, he⟩
    cases he
    have hn := hindex i (by simp [hi])
    rw [Nat.zero_add, hn, ← Array.getElem?_toList, hi]
    simp [standingIn]
  · intro hk
    obtain ⟨slot, hslot, hs⟩ := Option.bind_eq_some_iff.mp hk
    rw [← Array.getElem?_toList] at hslot
    cases slot with
    | used g s' =>
      simp only [standingIn] at hs
      split_ifs at hs with hg
      cases hs
      cases hg
      exact ⟨k.index.toNat, k.generation, s, hslot, by simp⟩
    | free | retired => cases hs

theorem pairwise_zipIdx {α : Type} (n : Nat) (l : List α) :
    (l.zipIdx n).Pairwise fun a b => a.2 < b.2 := by
  induction l generalizing n with
  | nil => exact .nil
  | cons a l ih =>
    refine List.zipIdx_cons ▸ .cons (fun b hb => ?_) (ih (n + 1))
    exact (List.mk_mem_zipIdx_iff_le_and_getElem?_sub.mp hb).1

/-- The entries stand in the order of their slots. -/
theorem Sound.pairwise_entries (h : t.Sound) :
    t.entries.Pairwise fun a b => a.1.index < b.1.index := by
  rw [entries_eq, entriesFrom, List.pairwise_filterMap]
  refine (pairwise_zipIdx 0 t.stored.toList).imp_of_mem fun {a b} _ hb hab => ?_
  intro e he e' he'
  obtain ⟨g, s, -, rfl⟩ := entryAt_eq_some_iff.mp he
  obtain ⟨g', s', -, rfl⟩ := entryAt_eq_some_iff.mp he'
  have hb : b.2 < t.stored.size := by
    have := (List.mk_mem_zipIdx_iff_getElem?.mp hb)
    simpa using (List.getElem?_eq_some_iff.mp this).1
  have hlt : b.2 < UInt32.size := h.lt_size (hb.trans_le h.fits)
  rw [UInt32.lt_iff_toNat_lt, UInt32.toNat_ofNat_of_lt' hlt,
    UInt32.toNat_ofNat_of_lt' (hab.trans hlt)]
  exact hab

theorem Sound.nodup_tickets (h : t.Sound) : (t.entries.map Prod.fst).Nodup := by
  rw [List.Nodup, List.pairwise_map]
  refine h.pairwise_entries.imp fun {a b} hab he => ?_
  rw [he] at hab
  exact (UInt32.lt_irrefl _) hab

theorem length_entries : t.entries.length = t.stored.toList.countP Slot.isUsed := by
  have hz : t.stored.toList = t.stored.toList.zipIdx.map Prod.fst := (List.zipIdx_map_fst 0 _).symm
  rw [entries, List.length_filterMap_eq_countP]
  conv_rhs => rw [hz, List.countP_map]
  refine List.countP_congr fun p _ => ?_
  rcases p with ⟨_ | _ | _, i⟩ <;> simp [entryAt, Slot.isUsed]

/-- The count is the number of entries. -/
theorem Sound.count_eq (h : t.Sound) : t.count = t.entries.length := by
  rw [h.counted, length_entries]

/-! ### The tickets in use -/

/-- The tickets in use. -/
def tickets (t : SlotTable) : Multiset Ticket := t.entries.map Prod.fst

theorem Sound.mem_tickets (h : t.Sound) {k : Ticket} : k ∈ t.tickets ↔ (t.find? k).isSome := by
  simp [tickets, h.mem_entries, Option.isSome_iff_exists]

theorem Sound.tickets_nodup (h : t.Sound) : t.tickets.Nodup :=
  Multiset.coe_nodup.mpr h.nodup_tickets

theorem Sound.card_tickets (h : t.Sound) : t.tickets.card = t.count := by
  simp [tickets, h.count_eq]

@[simp] theorem tickets_empty (growth : UInt64) (cap : UInt32) (grant : Nat) :
    (empty growth cap grant).tickets = 0 := rfl

theorem Sound.tickets_enrol (h : t.Sound) {k : Ticket} (hk : t.nextTicket = .ok k) (s : Standing) :
    (t.enrol s).tickets = k ::ₘ t.tickets := by
  have hnot : k ∉ t.tickets := by simp [h.mem_tickets, h.find?_nextTicket hk]
  refine (Multiset.Nodup.ext (h.enrol s).tickets_nodup
    (Multiset.nodup_cons.mpr ⟨hnot, h.tickets_nodup⟩)).mpr fun j => ?_
  rw [(h.enrol s).mem_tickets, h.find?_enrol hk, Multiset.mem_cons, h.mem_tickets]
  by_cases hj : j = k
  · simp [hj]
  · simp [hj, Function.update_of_ne]

theorem Sound.tickets_remove (h : t.Sound) {k : Ticket} (hk : k ∈ t.tickets) :
    t.tickets = k ::ₘ (t.remove k).2.tickets := by
  have hr := h.remove k
  have hnot : k ∉ (t.remove k).2.tickets := by simp [hr.mem_tickets, find?_remove]
  refine (Multiset.Nodup.ext h.tickets_nodup
    (Multiset.nodup_cons.mpr ⟨hnot, hr.tickets_nodup⟩)).mpr fun j => ?_
  rw [Multiset.mem_cons, hr.mem_tickets, find?_remove]
  by_cases hj : j = k
  · simp [hj, hk]
  · simp [hj, h.mem_tickets]

theorem Sound.tickets_update (h : t.Sound) (f : Ticket → Standing → Standing) :
    (t.update f).tickets = t.tickets := by
  refine (Multiset.Nodup.ext (h.update f).tickets_nodup h.tickets_nodup).mpr fun k => ?_
  simp [(h.update f).mem_tickets, h.mem_tickets, find?_update]

end SlotTable

end Custody

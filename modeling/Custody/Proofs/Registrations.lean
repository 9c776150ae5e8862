import Custody.Handle.Owner
import Custody.Proofs.Ledger.Actions
import Custody.Proofs.Ledger.Places

/-! Observing handles and slots match. For every allocation the tickets of the handles
that exist are the tickets that its slots know, each once, whatever was done with the
handles and however far the allocation is destroyed. -/

namespace Custody

open Stake

/-- Whether an action only moves handles from one place to another. A handle that is let
go moves into a pending task. -/
def Action.IsMove : Action → Prop
  | .newOwner | .newSoft | .swapOwners .. | .swapSofts .. | .exchangeLink .. | .exchangeBack ..
  | .discardOwner _ | .discardSoft _ => True
  | _ => False

namespace World

variable {w v : World} {r : RecordId} {rec : Record} {k : Watch}

/-- The tickets of all observing handles of a record, one for each handle. -/
def observersOf (w : World) (r : RecordId) : Multiset (Option Ticket) :=
  registrations (w.stakesIn r)

theorem mem_observersOf {t : Option Ticket} : t ∈ w.observersOf r ↔ w.IsHeld ⟨r, t⟩ := by
  rw [observersOf, mem_registrations, ← watches_mem_stakes]
  constructor
  · rintro ⟨q, hq⟩
    obtain ⟨hmem, rfl⟩ : _ ∧ q = r := mem_stakesIn.mp hq
    exact hmem
  · intro h
    exact ⟨r, mem_stakesIn.mpr ⟨h, rfl⟩⟩

theorem observersOf_congr (h : v.stakes = w.stakes) (r : RecordId) :
    v.observersOf r = w.observersOf r := by
  rw [observersOf, observersOf, stakesIn, stakesIn, h]

theorem observers_some (hr : w.records[r]? = some rec) :
    w.observers (some r) = rec.slots.count := by
  simp [observers, hr]

/-! ### One record -/

theorem Sound.enrolled (h : w.Sound) (hr : w.records[r]? = some rec) :
    rec.Enrolled (w.observersOf r) := (h.agrees hr).enrolled

theorem Sound.tracked_observers (h : w.Sound) (hr : w.records[r]? = some rec)
    (hm : rec.kind.mode = .tracked) :
    (w.observersOf r).Nodup ∧ w.observersOf r = rec.slots.tickets.map some ∧
      w.observers (some r) = (w.observersOf r).card := by
  have he := h.enrolled hr
  have ht : w.observersOf r = rec.slots.tickets.map some :=
    he.tracked (by simp [Mode.isTracked, hm])
  refine ⟨?_, ht, ?_⟩
  · rw [ht]
    exact he.slots.tickets_nodup.map (Option.some_injective _)
  · rw [observers_some hr, ht, Multiset.card_map, he.slots.card_tickets]

theorem Sound.untracked_observers (h : w.Sound) (hr : w.records[r]? = some rec)
    (hm : rec.kind.mode = .untracked) :
    w.observers (some r) = 0 ∧ ∀ t ∈ w.observersOf r, t = none := by
  have he := h.enrolled hr
  obtain ⟨h0, hn⟩ := he.untracked (by simp [Mode.isTracked, hm])
  refine ⟨?_, hn⟩
  rw [observers_some hr, ← he.slots.card_tickets, h0, Multiset.card_zero]

/-- Giving up the ticket of a handle that exists finds its slot. -/
theorem Sound.remove_of_isHeld (h : w.Sound) (hr : w.records[r]? = some rec) {t : Ticket}
    (ht : w.IsHeld ⟨r, some t⟩) : (rec.slots.remove t).1 = true := by
  have he := h.enrolled hr
  have hmem := mem_observersOf.mpr ht
  rw [SlotTable.remove_fst, ← he.slots.mem_tickets]
  cases hm : rec.kind.mode.isTracked with
  | false => cases (he.untracked hm).2 _ hmem
  | true =>
    rw [he.tracked hm] at hmem
    simpa using hmem

/-- Giving up a ticket that was just given finds its slot. -/
theorem Sound.remove_of_nextTicket (h : w.Sound) (hr : w.records[r]? = some rec) {t : Ticket}
    (ht : rec.nextTicket = .ok (some t)) : (rec.enrol.slots.remove t).1 = true := by
  have he := (h.enrolled hr).enrol ht
  rw [SlotTable.remove_fst, ← he.slots.mem_tickets]
  have hmem : some t ∈ some t ::ₘ w.observersOf r := Multiset.mem_cons_self _ _
  cases hm : rec.enrol.kind.mode.isTracked with
  | false => cases (he.untracked hm).2 _ hmem
  | true =>
    rw [he.tracked hm] at hmem
    simpa using hmem

/-! ### Moves and refusals -/

theorem Edits.slots (h : w.Edits v) (q : RecordId) :
    v.records[q]?.map Record.slots = w.records[q]?.map Record.slots := by
  obtain hq | ⟨rec, f, hrec, -, hq⟩ := h q
  · rw [hq]
  · rw [hq, hrec]
    rfl

theorem observers_congr
    (h : ∀ q : RecordId, v.records[q]?.map Record.slots = w.records[q]?.map Record.slots)
    (o : Owner) : v.observers o = w.observers o := by
  cases o with
  | none => rfl
  | some r =>
    have hc := congrArg (fun s => (s.map SlotTable.count).getD 0) (h r)
    simpa [observers, Function.comp_def] using hc

/-- A handle that moves takes its ticket along, and no slot changes. -/
theorem moves {a : Action} (ha : a.IsMove) :
    (a.run w).stakes = w.stakes ∧
      ∀ q : RecordId, (a.run w).records[q]?.map Record.slots = w.records[q]?.map Record.slots := by
  cases a with
  | newOwner => exact ⟨(stakes_pushOwner none).trans (zero_add _), fun _ => rfl⟩
  | newSoft => exact ⟨(stakes_pushSoft none).trans (zero_add _), fun _ => rfl⟩
  | swapOwners i j =>
    refine ⟨stakes_swapOwners i j, fun q => ?_⟩
    simp only [Action.run, swapOwners]
    split
    · split_ifs <;> rfl
    · rfl
  | swapSofts p q =>
    refine ⟨stakes_swapSofts p q, fun r => ?_⟩
    rw [Action.run, records_swapSofts]
  | exchangeLink g i j => exact ⟨stakes_exchangeLink g i j, (edits_exchangeLink g i j).slots⟩
  | exchangeBack g i p => exact ⟨stakes_exchangeBack g i p, (edits_exchangeBack g i p).slots⟩
  | discardOwner i =>
    refine ⟨stakes_discardOwner i, fun q => ?_⟩
    simp only [Action.run, discardOwner]
    split_ifs <;> rfl
  | discardSoft p =>
    refine ⟨stakes_discardSoft p, fun r => ?_⟩
    rw [Action.run, records_discardSoft]
  | _ => cases ha

/-- Two handles that are exchanged keep their tickets. -/
theorem swapSofts_cases {p q : SoftPlace} {a b : Soft} (ha : w.soft? p = some a)
    (hb : w.soft? q = some b) : w.swapSofts p q = w ∨
      (w.swapSofts p q).soft? p = some b ∧ (w.swapSofts p q).soft? q = some a := by
  simp only [swapSofts, ha, hb]
  split_ifs
  · refine .inr ⟨?_, ?_⟩
    · rw [soft?_setSoft, soft?_setSoft, if_pos rfl, ha]
      split_ifs with hqp
      · subst hqp
        exact ha.symm.trans hb
      · rfl
    · rw [soft?_setSoft, if_pos rfl, soft?_setSoft_of_eq hb]
      rfl
  · exact .inl rfl

theorem attach_of_error {p : SoftPlace} {e : HeapRefusal} (he : (w.attach r p).1 = .error e) :
    (w.attach r p).2 = w := by
  unfold attach at he ⊢
  split_ifs at he ⊢
  split at he
  · rename_i hw
    exact eq_of_watch_error hw
  · cases he

theorem newScan_of_error {i : UInt64} {o : Option RecordId} {e : HeapRefusal}
    (he : (w.newScan o i).1 = .error e) : (w.newScan o i).2 = w := by
  unfold newScan at he ⊢
  split at he
  · cases he
  · split at he
    · rename_i hw
      exact eq_of_watch_error hw
    · cases he

theorem newWalk_of_error {i : UInt64} {o : Option RecordId} {e : HeapRefusal}
    (he : (w.newWalk o i).1 = .error e) : (w.newWalk o i).2 = w := by
  unfold newWalk at he ⊢
  split at he
  · cases he
  · split at he
    · rename_i hw
      exact eq_of_watch_error hw
    · cases he

theorem copyBriefly_of_refused {s : Soft} (h : (w.copyBriefly s).1 = none) :
    (w.copyBriefly s).2 = w := by
  cases s with
  | none => rfl
  | some k =>
    simp only [copyBriefly] at h ⊢
    split
    · rfl
    · rename_i rec hrec
      rw [hrec] at h
      simp only at h
      split
      · rfl
      · rename_i t ht
        rw [ht] at h
        cases h

/-! ### Handles and slots -/

/-- In every reachable world the tickets of the observing handles of an allocation, one
for each handle that exists, are the tickets of its used slots, all different; if
observers are untracked there are no tickets and no used slots. So whenever a ticket is
given up its slot is found. Moving handles changes no ticket and no slot, and a
registration that is refused changes nothing. -/
theorem tickets_match_slots (h : w.Reachable) :
    (∀ r rec, w.records[r]? = some rec →
      (rec.kind.mode = .tracked → (w.observersOf r).Nodup ∧
        w.observersOf r = rec.slots.tickets.map some ∧
        w.observers (some r) = (w.observersOf r).card) ∧
      (rec.kind.mode = .untracked →
        w.observers (some r) = 0 ∧ ∀ t ∈ w.observersOf r, t = none) ∧
      (∀ t, w.IsHeld ⟨r, some t⟩ → (rec.slots.remove t).1 = true) ∧
      (∀ t, rec.nextTicket = .ok (some t) → (rec.enrol.slots.remove t).1 = true)) ∧
    (∀ r, w.records[r]? = none → w.observersOf r = 0) ∧
    (∀ r t, t ∈ w.observersOf r ↔ w.IsHeld ⟨r, t⟩) ∧
    (∀ a : Action, a.IsMove → (∀ r, (a.run w).observersOf r = w.observersOf r) ∧
      (∀ r : RecordId, (a.run w).records[r]?.map Record.slots = w.records[r]?.map Record.slots) ∧
      ∀ o, (a.run w).observers o = w.observers o) ∧
    (∀ p q a b, w.soft? p = some a → w.soft? q = some b → w.swapSofts p q = w ∨
      (w.swapSofts p q).soft? p = some b ∧ (w.swapSofts p q).soft? q = some a) ∧
    (∀ e, (∀ r p, (w.attach r p).1 = .error e → (w.attach r p).2 = w) ∧
      (∀ o i, (w.newScan o i).1 = .error e → (w.newScan o i).2 = w) ∧
      (∀ o i, (w.newWalk o i).1 = .error e → (w.newWalk o i).2 = w)) ∧
    (∀ s, (w.copyBriefly s).1 = none → (w.copyBriefly s).2 = w) := by
  have hs := h.sound
  refine ⟨fun r rec hr => ⟨hs.tracked_observers hr, hs.untracked_observers hr,
      fun t => hs.remove_of_isHeld hr, fun t => hs.remove_of_nextTicket hr⟩,
    fun r hr => ?_, fun r t => mem_observersOf, fun a ha => ?_, fun p q a b => swapSofts_cases,
    fun e => ⟨fun r p => attach_of_error, fun o i => newScan_of_error, fun o i => newWalk_of_error⟩,
    fun s => copyBriefly_of_refused⟩
  · rw [observersOf, (hs.vacant hr).1, registrations_zero]
  · obtain ⟨hst, hsl⟩ := moves (w := w) ha
    exact ⟨observersOf_congr hst, hsl, observers_congr hsl⟩

/-- An array that two handles observe, one of them from a scan, after the owner has gone
while a guard was out, the guard has ended, and one of three handles was let go. -/
def orphanedArray : World :=
  [.construct 0 ⟨.array, .int, .tracked⟩ ⟨3, fun i => .int (Int64.ofNat i), none⟩,
    .newSoft, .newSoft, .attach 0 (.soft 0), .attach 0 (.soft 1), .newScan (some 0) 1,
    .lend (.soft (.soft 0)) .shared,
    .discardOwner 0, .tick, .tick, .endBorrow 0, .discardSoft (.soft 1), .tick].foldl Action.run
    (start defaultGrant)

theorem tickets_orphanedArray :
    orphanedArray.observersOf 0 = {some ⟨0, 0⟩, some ⟨2, 0⟩} ∧
      orphanedArray.observers (some 0) = 2 := by
  have hseen :
      orphanedArray.records[0]?.map (fun rec => (rec.kind.mode, rec.slots.tickets.map some)) =
      some (.tracked, {some ⟨0, 0⟩, some ⟨2, 0⟩}) := by decide
  obtain ⟨rec, hr, hrec⟩ := Option.map_eq_some_iff.mp hseen
  obtain ⟨hm, ht⟩ := Prod.mk.inj hrec
  have h := ((tickets_match_slots (w := orphanedArray) (reachable_foldl _ _)).1 0 rec hr).1 hm
  refine ⟨h.2.1.trans ht, ?_⟩
  rw [h.2.2, h.2.1, ht]
  rfl

end World

end Custody

import Custody.Proofs.Heap.Notices
import Custody.Proofs.Heap.Rolls

/-! The diary of a run. It notes every registration on every allocation: when it is made, by a
handle or for a moment by a finalizer, when its observer is told that the owner has gone, and
when it is given up. `Observed` says that the slots and the counters of the heaps follow such
notes; what does not concern observers is noted nowhere. -/

namespace Custody

/-- Whether an object that an action builds is built on a heap that there is. -/
def Action.isSited (w : World) : Action → Bool
  | .construct h _ _ => h < w.heaps.size
  | _ => true

namespace World

/-- The heap and the slots of a record. -/
def slotsAt (w : World) (r : RecordId) : Option (HeapId × SlotTable) :=
  w.records[r]?.map fun rec => (rec.heap, rec.slots)

/-- What a registration was told last, if it is there. -/
def standing? (w : World) (k : Registration) : Option Standing :=
  (w.slotsAt k.record).bind fun s => if s.1 = k.heap then s.2.find? k.ticket else none

/-- The live registrations with a record. -/
def liveIn (w : World) (r : RecordId) : List Registration :=
  match w.slotsAt r with
  | none => []
  | some (h, t) => (t.entries.filter fun e => e.2 = .live).map fun e => ⟨h, r, e.1⟩

/-- All live registrations. -/
def liveAll (w : World) : List Registration := (List.range w.records.size).flatMap w.liveIn

/-- How many registrations heap `h` counts. -/
def admissions (w : World) (h : HeapId) : Nat :=
  (w.heaps[h]?.map fun heap => heap.stats.registrations).getD 0

/-! ### The diary -/

/-- The registration that is made by watching a record: that of the handle that comes of it. -/
def enrolment (w : World) (r : RecordId) : List Notice :=
  match (w.watch r).1, w.records[r]? with
  | .ok (some ⟨_, some t⟩), some rec => [.made ⟨rec.heap, r, t⟩ rec.standing]
  | _, _ => []

/-- The registration of the copy that a finalizer makes of a handle and drops again. -/
def brief (w : World) : Soft → List Notice
  | none => []
  | some k =>
    match w.records[k.record]? with
    | none => []
    | some rec =>
      match rec.nextTicket with
      | .ok (some t) =>
        [.made ⟨rec.heap, k.record, t⟩ rec.standing, .ended ⟨rec.heap, k.record, t⟩ rec.standing]
      | _ => []

/-- The registration that a handle gives up when it goes away. -/
def farewell (w : World) : Soft → List Notice
  | some ⟨r, some t⟩ =>
    match w.slotsAt r with
    | none => []
    | some (h, slots) => ((slots.find? t).map (Notice.ended ⟨h, r, t⟩)).toList
  | _ => []

/-- What a task does to registrations. -/
def noticesOf (w : World) : Task → List Notice
  | .dropOwner (some r) => if w.isBorrowed r then (w.liveIn r).map .told else []
  | .retire r => (w.liveIn r).map .told
  | .dropSoft s => w.farewell s
  | .dropItem (.node _ f _ prev) => if f.probes then w.brief prev else []
  | _ => []

/-- What an action does to registrations. -/
def notices (w : World) : Action → List Notice
  | .attach r p => if p.isLoose && w.soft? p = some none then w.enrolment r else []
  | .newScan (some r) _ | .newWalk (some r) _ => w.enrolment r
  | .tick =>
    match w.pending with
    | t :: rest => ({ w with pending := rest } : World).noticesOf t
    | [] => []
  | _ => []

/-- What a run does to registrations, in order. -/
def diary : World → List Action → List Notice
  | _, [] => []
  | w, a :: as => w.notices a ++ diary (a.run w) as

theorem diary_concat (w : World) (as : List Action) (a : Action) :
    w.diary (as ++ [a]) = w.diary as ++ (as.foldl Action.run w).notices a := by
  induction as generalizing w with
  | nil => simp [diary]
  | cons b as ih => simp [diary, ih]

variable {u v w : World} {r : RecordId} {rec : Record} {h : HeapId} {t t' : SlotTable}
  {k : Registration} {ns ms : List Notice}

/-! ### What a world reflects -/

/-- Whether a registration was ever made. -/
def IsSpent (w : World) (k : Registration) : Prop :=
  ∃ t, w.slotsAt k.record = some (k.heap, t) ∧ t.IsSpent k.ticket

/-- A world reflects a roll if its slots hold what the roll says, and no ticket of a registration
that was made is issued again. -/
structure Reflects (w : World) (b : Roll) : Prop where
  standing : b.standing = w.standing?
  spent : ∀ k ∈ b.made, w.IsSpent k

/-- Whether every allocation is on a heap that there is. -/
def Sited (w : World) : Prop := ∀ r h t, w.slotsAt r = some (h, t) → h < w.heaps.size

/-- `v` is `w` after `ns` happened to registrations. -/
structure Observed (w v : World) (ns : List Notice) : Prop where
  reflects : ∀ b, w.Reflects b → b.Allows ns ∧ v.Reflects (b.enterAll ns)
  counted : ∀ h, v.admissions h = w.admissions h + (picked Notice.made? ns).countP (·.heap = h)
  sited : w.Sited → v.Sited

theorem Observed.trans (hn : w.Observed v ns) (hm : v.Observed u ms) : w.Observed u (ns ++ ms) where
  reflects b hb := by
    obtain ⟨hallows, hv⟩ := hn.reflects b hb
    obtain ⟨hallows', hu⟩ := hm.reflects _ hv
    exact ⟨Roll.allows_append.mpr ⟨hallows, hallows'⟩, by rwa [Roll.enterAll_append]⟩
  counted h := by
    rw [hm.counted, hn.counted, picked_append, Multiset.countP_add, Nat.add_assoc]
  sited hw := hm.sited (hn.sited hw)

theorem slotsAt_of_record (hr : w.records[r]? = some rec) :
    w.slotsAt r = some (rec.heap, rec.slots) := by
  rw [slotsAt, hr, Option.map_some]

theorem standing?_of_slotsAt (hs : w.slotsAt k.record = some (h, t)) :
    w.standing? k = if h = k.heap then t.find? k.ticket else none := by
  rw [standing?, hs, Option.bind_some]

theorem standing?_congr (hs : v.slotsAt = w.slotsAt) : v.standing? = w.standing? := by
  funext k
  rw [standing?, standing?, hs]

/-- Nothing that concerns observers happens. -/
structure Unseen (w v : World) : Prop where
  slots : v.slotsAt = w.slotsAt
  counted : v.admissions = w.admissions
  heaps : w.heaps.size ≤ v.heaps.size

theorem Unseen.refl (w : World) : w.Unseen w := ⟨rfl, rfl, le_rfl⟩

theorem Unseen.trans (hv : w.Unseen v) (hu : v.Unseen u) : w.Unseen u :=
  ⟨hu.slots.trans hv.slots, hu.counted.trans hv.counted, hv.heaps.trans hu.heaps⟩

theorem Unseen.observed (hv : w.Unseen v) : w.Observed v [] where
  reflects b hb := by
    refine ⟨trivial, hb.standing.trans (standing?_congr hv.slots).symm, fun k hk => ?_⟩
    obtain ⟨t, hs, ht⟩ := hb.spent k hk
    exact ⟨t, (congrFun hv.slots _).trans hs, ht⟩
  counted h := by rw [hv.counted, picked_nil, Multiset.countP_zero, Nat.add_zero]
  sited hw r h t hs := (hw r h t ((congrFun hv.slots r).symm.trans hs)).trans_le hv.heaps

/-- The slots of one record change. -/
structure Changes (w : World) (r : RecordId) (h : HeapId) (t t' : SlotTable)
    (v : World) : Prop where
  before : w.slotsAt r = some (h, t)
  after : ∀ q, v.slotsAt q = if r = q then some (h, t') else w.slotsAt q

theorem Changes.standing? (hc : w.Changes r h t t' v) (k : Registration) :
    v.standing? k = if k.record = r ∧ k.heap = h then t'.find? k.ticket else w.standing? k := by
  by_cases hr : r = k.record
  · subst hr
    rw [standing?_of_slotsAt ((hc.after _).trans (if_pos rfl)), standing?_of_slotsAt hc.before]
    by_cases hh : h = k.heap
    · simp [hh]
    · simp [hh, Ne.symm hh]
  · rw [World.standing?, World.standing?, hc.after, if_neg hr, if_neg fun h => hr h.1.symm]

/-- Where one ticket changes, one registration does. -/
theorem Changes.standing?_update {j : Ticket} {x : Option Standing} (hc : w.Changes r h t t' v)
    (hf : t'.find? = Function.update t.find? j x) :
    v.standing? = Function.update w.standing? ⟨h, r, j⟩ x := by
  funext k
  rw [hc.standing?, hf, Function.update_apply, Function.update_apply]
  obtain ⟨heap, record, ticket⟩ := k
  by_cases hk : record = r ∧ heap = h
  · obtain ⟨rfl, rfl⟩ := hk
    have hsame : w.standing? ⟨heap, record, ticket⟩ = t.find? ticket :=
      (standing?_of_slotsAt (k := ⟨heap, record, ticket⟩) hc.before).trans (if_pos rfl)
    simp [hsame]
  · rw [if_neg hk,
      if_neg fun he => hk ⟨congrArg Registration.record he, congrArg Registration.heap he⟩]

theorem Changes.isSpent (hc : w.Changes r h t t' v) (ht : ∀ j, t.IsSpent j → t'.IsSpent j)
    (hk : w.IsSpent k) : v.IsSpent k := by
  obtain ⟨s, hs, hspent⟩ := hk
  by_cases hr : r = k.record
  · subst hr
    obtain ⟨rfl, rfl⟩ := Prod.mk.inj (Option.some.inj (hc.before.symm.trans hs))
    exact ⟨t', (hc.after _).trans (if_pos rfl), ht _ hspent⟩
  · exact ⟨s, ((hc.after _).trans (if_neg hr)).trans hs, hspent⟩

theorem Changes.sited (hc : w.Changes r h t t' v) (hh : w.heaps.size ≤ v.heaps.size)
    (hw : w.Sited) : v.Sited := by
  intro q k s hs
  rw [hc.after] at hs
  split_ifs at hs with hq
  · obtain ⟨rfl, rfl⟩ := Prod.mk.inj (Option.some.inj hs)
    exact (hw r h t hc.before).trans_le hh
  · exact (hw q k s hs).trans_le hh

/-- An observer registers under the next ticket. -/
theorem Changes.reflects_enrol {s : Standing} {j : Ticket} (hc : w.Changes r h t (t.enrol s) v)
    (ht : t.Sound) (hj : t.nextTicket = .ok j) {b : Roll} (hb : w.Reflects b) :
    b.Allows [.made ⟨h, r, j⟩ s] ∧ v.Reflects (b.enterAll [.made ⟨h, r, j⟩ s]) := by
  have hnew : ⟨h, r, j⟩ ∉ b.made := fun hmem => by
    obtain ⟨u, hu, hspent⟩ := hb.spent _ hmem
    obtain ⟨-, rfl⟩ := Prod.mk.inj (Option.some.inj (hc.before.symm.trans hu))
    exact ht.not_isSpent_nextTicket hj hspent
  have hfree : b.standing ⟨h, r, j⟩ = none := by
    rw [hb.standing, standing?_of_slotsAt hc.before]
    simp [ht.find?_nextTicket hj]
  refine ⟨⟨⟨hnew, hfree⟩, trivial⟩, ?_, ?_⟩
  · rw [hc.standing?_update (ht.find?_enrol hj s), ← hb.standing]
    rfl
  · rintro k (rfl | hk)
    · exact ⟨_, (hc.after r).trans (if_pos rfl), ht.isSpent_enrol hj s (.inl rfl)⟩
    · exact hc.isSpent (fun i hi => ht.isSpent_enrol hj s (.inr hi)) (hb.spent k hk)

/-- An observer gives up its ticket. -/
theorem Changes.reflects_remove {s : Standing} {j : Ticket} (hc : w.Changes r h t (t.remove j).2 v)
    (hj : t.find? j = some s) {b : Roll} (hb : w.Reflects b) :
    b.Allows [.ended ⟨h, r, j⟩ s] ∧ v.Reflects (b.enterAll [.ended ⟨h, r, j⟩ s]) := by
  have hstanding : b.standing ⟨h, r, j⟩ = some s := by
    rw [hb.standing, standing?_of_slotsAt hc.before]
    simp [hj]
  refine ⟨⟨hstanding, trivial⟩, ?_, fun k hk => ?_⟩
  · rw [hc.standing?_update (SlotTable.find?_remove j), ← hb.standing]
    rfl
  · exact hc.isSpent (fun i hi => SlotTable.isSpent_remove j hi) (hb.spent k hk)

theorem mem_liveIn (hs : w.slotsAt r = some (h, t)) (ht : t.Sound) :
    k ∈ w.liveIn r ↔ k.record = r ∧ k.heap = h ∧ t.find? k.ticket = some .live := by
  obtain ⟨heap, record, ticket⟩ := k
  simp only [liveIn, hs, List.mem_map, List.mem_filter, decide_eq_true_iff, Registration.mk.injEq,
    Prod.exists, ht.mem_entries]
  constructor
  · rintro ⟨j, s, ⟨hj, rfl⟩, rfl, rfl, rfl⟩
    exact ⟨rfl, rfl, hj⟩
  · rintro ⟨rfl, rfl, hj⟩
    exact ⟨ticket, .live, ⟨hj, rfl⟩, rfl, rfl, rfl⟩

theorem nodup_liveIn (hs : w.slotsAt r = some (h, t)) (ht : t.Sound) : (w.liveIn r).Nodup := by
  simp only [liveIn, hs]
  have hnodup := (ht.nodup_tickets.sublist (List.filter_sublist.map Prod.fst :
    ((t.entries.filter fun e => e.2 = .live).map Prod.fst).Sublist _)).map
      (f := fun j => (⟨h, r, j⟩ : Registration)) fun i j hij => congrArg Registration.ticket hij
  simpa [List.map_map, Function.comp_def] using hnodup

/-- All live observers of a record are told. -/
theorem Changes.reflects_dismiss (hc : w.Changes r h t (t.update fun _ _ => .gone) v) (ht : t.Sound)
    {b : Roll} (hb : w.Reflects b) :
    b.Allows ((w.liveIn r).map .told) ∧ v.Reflects (b.enterAll ((w.liveIn r).map .told)) := by
  have hlive : ∀ k ∈ w.liveIn r, b.standing k = some .live := fun k hk => by
    obtain ⟨rfl, rfl, hj⟩ := (mem_liveIn hc.before ht).mp hk
    rw [hb.standing, standing?_of_slotsAt hc.before, if_pos rfl, hj]
  obtain ⟨hallows, henter⟩ := Roll.allows_told (nodup_liveIn hc.before ht) hlive
  refine ⟨hallows, ?_, fun k hk => ?_⟩
  · rw [henter, hb.standing]
    funext k
    rw [hc.standing?, SlotTable.find?_update]
    by_cases hk : k.record = r ∧ k.heap = h
    · obtain ⟨rfl, rfl⟩ := hk
      rw [if_pos ⟨rfl, rfl⟩]
      simp only [mem_liveIn hc.before ht, true_and, standing?_of_slotsAt hc.before, if_true]
      cases hj : t.find? k.ticket with
      | none => simp
      | some s => cases s <;> simp
    · have hout : k ∉ w.liveIn r := fun hmem =>
        hk ⟨((mem_liveIn hc.before ht).mp hmem).1, ((mem_liveIn hc.before ht).mp hmem).2.1⟩
      rw [if_neg hk]
      simp [hout]
  · rw [henter] at hk
    exact hc.isSpent (fun i hi => SlotTable.isSpent_update _ hi) (hb.spent k hk)

/-! ### What does not concern observers -/

theorem slotsAt_congr (hr : v.records = w.records) : v.slotsAt = w.slotsAt := by
  funext q
  rw [slotsAt, slotsAt, hr]

theorem slotsAt_modifyRecord (r : RecordId) (f : Record → Record)
    (hf : ∀ rec, (f rec).heap = rec.heap ∧ (f rec).slots = rec.slots) :
    (w.modifyRecord r f).slotsAt = w.slotsAt := by
  funext q
  simp only [slotsAt, modifyRecord, Array.getElem?_modify]
  split_ifs
  · cases w.records[q]? with
    | none => rfl
    | some rec => simp [hf]
  · rfl

theorem admissions_of_tallies (h : v.tallies = w.tallies) : v.admissions = w.admissions := by
  have heq (u : World) : u.admissions = fun k => (u.tallies k).1 := by
    funext k
    rw [admissions, tallies]
    cases u.heaps[k]? <;> rfl
  rw [heq, heq, h]

theorem unseen_of_tallies (hs : v.slotsAt = w.slotsAt) (ht : v.tallies = w.tallies)
    (hh : w.heaps.size ≤ v.heaps.size) : w.Unseen v :=
  ⟨hs, admissions_of_tallies ht, hh⟩

theorem unseen_of_slots (hs : v.slotsAt = w.slotsAt) (hh : v.heaps = w.heaps) : w.Unseen v :=
  unseen_of_tallies hs (tallies_congr hh) (by rw [hh])

theorem unseen_of_eq (hr : v.records = w.records) (hh : v.heaps = w.heaps) : w.Unseen v :=
  unseen_of_slots (slotsAt_congr hr) hh

theorem unseen_invalidated (h : HeapId) (n : Nat) :
    w.Unseen (w.modifyHeap h fun heap => heap.noteInvalidated n) where
  slots := rfl
  counted := by
    funext q
    simp only [admissions, modifyHeap, Array.getElem?_modify]
    split_ifs
    · cases w.heaps[q]? <;> rfl
    · rfl
  heaps := by simp [modifyHeap]

theorem unseen_release (h : HeapId) (b : Block) (keep : Bool) :
    w.Unseen (w.modifyHeap h (·.release b keep)) :=
  unseen_of_tallies rfl (tallies_release h b keep) (by simp [modifyHeap])

theorem unseen_allocate {payload : Layout} {n : Nat} {b : Block}
    (hv : w.allocate h payload n = .ok (b, v)) : w.Unseen v := by
  have htallies := tallies_allocate hv
  obtain ⟨arena, -, rfl⟩ := allocate_eq_ok hv
  exact unseen_of_tallies rfl htallies (by simp [modifyHeap])

theorem unseen_schedule (ts : List Task) : w.Unseen (w.schedule ts) := unseen_of_eq rfl rfl

theorem unseen_raise (p : Panic) : w.Unseen (w.raise p) :=
  unseen_of_eq (records_raise p) (heaps_raise p)

theorem unseen_demolish (r : RecordId) : w.Unseen (w.demolish r) := by
  unfold demolish
  split
  · exact .refl w
  · split
    · exact .refl w
    · exact unseen_of_slots (slotsAt_modifyRecord _ _ fun _ => by exact ⟨rfl, rfl⟩) rfl

theorem unseen_returnBlock (r : RecordId) : w.Unseen (w.returnBlock r) := by
  unfold returnBlock
  split
  · exact .refl w
  · split
    · exact .refl w
    · refine Unseen.trans ?_ (unseen_release _ _ _)
      exact unseen_of_slots (slotsAt_modifyRecord _ _ fun _ => by exact ⟨rfl, rfl⟩) rfl

variable {a : Action}

/-- Heaps stay; at most there is one more. -/
theorem size_heaps_run_of_heaps (ha : a.concern = .heaps) :
    w.heaps.size ≤ (a.run w).heaps.size := by
  cases a with
  | openHeap c =>
    simp only [Action.run, openHeap]
    split
    · exact le_rfl
    · simp
  | allot h l n =>
    simp only [Action.run, allot]
    split
    · exact le_rfl
    · rename_i b v hv
      exact (unseen_allocate hv).heaps
  | giveBack b h =>
    simp only [Action.run, giveBack]
    split
    · exact le_rfl
    · simp [modifyHeap]
  | setDetecting h on => simp [Action.run, setDetecting_snd, modifyHeap]
  | reclaim h => simp [Action.run, World.reclaim, modifyHeap]
  | fill => exact le_rfl
  | _ => cases ha

theorem unseen_run_of_heaps (ha : a.concern = .heaps) : w.Unseen (a.run w) :=
  unseen_of_tallies (slotsAt_congr (records_run_of_heaps ha)) (tallies_run_of_heaps ha)
    (size_heaps_run_of_heaps ha)

theorem unseen_run_of_variables (ha : a.concern = .variables) : w.Unseen (a.run w) :=
  unseen_of_eq (records_run_of_variables ha) (heaps_run_of_variables ha)

theorem unseen_run_of_borrows (ha : a.concern = .borrows) : w.Unseen (a.run w) :=
  unseen_of_slots (funext fun r => map_records_run_of_borrows ha (fun _ _ => rfl) r)
    (heaps_run_of_borrows ha)

theorem unseen_run_of_elements (ha : a.concern = .elements) : w.Unseen (a.run w) :=
  unseen_of_slots (funext fun r => map_records_run_of_elements ha (fun _ _ => rfl) r)
    (heaps_run_of_elements ha)

theorem unseen_run_of_resets (ha : a.concern = .resets) : w.Unseen (a.run w) :=
  run_of_resets w.Unseen ha (.refl w) (fun _ => unseen_of_eq rfl rfl)
    (fun _ _ _ _ _ _ => unseen_of_slots (slotsAt_modifyRecord _ _ fun _ => ⟨rfl, rfl⟩) rfl)
    fun _ r hu => hu.trans ((unseen_schedule _).trans (unseen_demolish r))

end World

end Custody

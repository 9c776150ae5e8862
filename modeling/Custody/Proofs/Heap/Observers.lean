import Custody.Proofs.Heap.Enrolments

/-! Observers and what a heap counts of them. The slots show at every moment what the diary of
the run says, and the two counters of a heap are the numbers of registrations that its diary
has made and told. Main result: `observers_accounted`. -/

namespace Custody

namespace World

variable {w : World} {r : RecordId} {rec : Record} {h : HeapId} {k : Registration}

/-! ### Who is told -/

theorem picked_told_enrolment (r : RecordId) : picked Notice.told? (w.enrolment r) = 0 := by
  unfold enrolment
  split <;> rfl

theorem picked_told_brief (s : Soft) : picked Notice.told? (w.brief s) = 0 := by
  unfold brief
  (repeat' split) <;> rfl

theorem picked_told_farewell (s : Soft) : picked Notice.told? (w.farewell s) = 0 := by
  unfold farewell
  split
  · split
    · rfl
    · cases SlotTable.find? _ _ <;> rfl
  · rfl

theorem picked_told (ks : List Registration) : picked Notice.told? (ks.map .told) = ks := by
  simp [picked, List.filterMap_map, Function.comp_def]

theorem picked_told_noticesOf (t : Task) :
    picked Notice.told? (w.noticesOf t) =
      match t with
      | .dropOwner (some r) => if w.isBorrowed r then (w.liveIn r : Multiset Registration) else 0
      | .retire r => (w.liveIn r : Multiset Registration)
      | _ => 0 := by
  cases t with
  | dropOwner o =>
    cases o with
    | none => rfl
    | some r =>
      simp only [noticesOf]
      split_ifs
      · exact picked_told _
      · rfl
  | retire r => exact picked_told _
  | dropSoft s => exact picked_told_farewell s
  | dropItem i =>
    cases i with
    | node _ f _ prev =>
      simp only [noticesOf]
      split_ifs
      · exact picked_told_brief prev
      · rfl
    | unit | int | byte | bucket | entry => rfl
  | forget | abandon => rfl

/-- The notices tell exactly the live observers of the record that an action tells. -/
theorem picked_told_notices (a : Action) :
    picked Notice.told? (w.notices a) = (w.told? a).elim 0 fun r =>
      (w.liveIn r : Multiset Registration) := by
  cases a with
  | attach r p =>
    simp only [notices]
    split_ifs
    · exact picked_told_enrolment r
    · rfl
  | newScan o _ | newWalk o _ =>
    cases o with
    | none => rfl
    | some r => exact picked_told_enrolment r
  | tick =>
    cases hp : w.pending with
    | nil => simp [notices, told?, hp]
    | cons t rest =>
      simp only [notices, told?, hp, picked_told_noticesOf]
      cases t with
      | dropOwner o =>
        cases o with
        | none => rfl
        | some r =>
          have hb : ({ w with pending := rest } : World).isBorrowed r = w.isBorrowed r := rfl
          simp only [hb]
          split_ifs <;> rfl
      | retire | dropSoft | dropItem | forget | abandon => rfl
  | _ => rfl

theorem liveIn_eq_nil (hr : w.slotsAt r = none) : w.liveIn r = [] := by
  rw [liveIn, hr]

theorem liveIn_of_record (hr : w.records[r]? = some rec) :
    w.liveIn r = (rec.slots.entries.filter fun e => e.2 = .live).map fun e =>
      ⟨rec.heap, r, e.1⟩ := by
  rw [liveIn, slotsAt_of_record hr]

/-- A heap counts those that are told. -/
theorem notice_eq_countP (hsited : w.Sited) (r : RecordId) (h : HeapId) :
    w.notice r h = (w.liveIn r : Multiset Registration).countP (·.heap = h) := by
  cases hr : w.records[r]? with
  | none =>
    have hgone : w.heapOf (some r) = none := by simp [heapOf, hr]
    rw [notice, hgone, liveIn_eq_nil (by rw [slotsAt, hr, Option.map_none]), if_neg (by simp)]
    rfl
  | some rec =>
    have hlt : rec.heap < w.heaps.size := hsited r _ _ (slotsAt_of_record hr)
    rw [notice, heapOf_some hr, liveObservers_of_record hr, liveIn_of_record hr,
      Multiset.coe_countP, List.countP_map, SlotTable.liveCount]
    by_cases hh : rec.heap = h
    · subst hh
      rw [if_pos ⟨rfl, hlt⟩, List.countP_eq_length.mpr fun _ _ => by simp]
    · rw [if_neg fun hs => hh (Option.some.inj hs.1)]
      exact (List.countP_eq_zero.mpr fun _ _ => by simpa using hh).symm

theorem Sound.invalidations_notices (hw : w.Sound) (hsited : w.Sited) (a : Action) (h : HeapId) :
    (a.run w).invalidations h =
      w.invalidations h + (picked Notice.told? (w.notices a)).countP (·.heap = h) := by
  rw [hw.invalidations_run, picked_told_notices]
  cases w.told? a with
  | none => rfl
  | some r => exact congrArg _ (notice_eq_countP hsited r h)

/-! ### Whole runs -/

/-- Whether every object of a run is built on a heap that there is. -/
def allSited : World → List Action → Bool
  | _, [] => true
  | w, a :: as => a.isSited w && allSited (a.run w) as

theorem allSited_concat (as : List Action) (a : Action) :
    w.allSited (as ++ [a]) = (w.allSited as && a.isSited (as.foldl Action.run w)) := by
  induction as generalizing w with
  | nil => simp [allSited]
  | cons b as ih => rw [List.cons_append, allSited, ih, allSited, Bool.and_assoc, List.foldl_cons]

theorem reflects_start (grant : Nat) : (start grant).Reflects .blank where
  standing := by
    funext k
    simp [standing?, slotsAt, start, Roll.blank]
  spent _ hk := hk.elim

theorem sited_start (grant : Nat) : (start grant).Sited := by
  intro r h t hs
  simp [slotsAt, start] at hs

theorem admissions_start (grant : Nat) (h : HeapId) : (start grant).admissions h = 0 := by
  cases h <;> rfl

theorem invalidations_start (grant : Nat) (h : HeapId) : (start grant).invalidations h = 0 := by
  cases h <;> rfl

/-- What a run does to observers is in its diary, and the heaps count it. -/
theorem observed_foldl {grant : Nat} {as : List Action} (ha : (start grant).allSited as = true) :
    (start grant).Observed (as.foldl Action.run (start grant)) ((start grant).diary as) ∧
      ∀ h, (as.foldl Action.run (start grant)).invalidations h =
        (picked Notice.told? ((start grant).diary as)).countP (·.heap = h) := by
  induction as using List.reverseRecOn with
  | nil => exact ⟨(Unseen.refl _).observed, invalidations_start grant⟩
  | append_singleton as a ih =>
    rw [allSited_concat, Bool.and_eq_true] at ha
    obtain ⟨hn, hcount⟩ := ih ha.1
    have hsound := (reachable_foldl grant as).sound
    have hsited := hn.sited (sited_start grant)
    rw [List.foldl_append, diary_concat]
    refine ⟨hn.trans (hsound.observed_run hsited ha.2), fun h => ?_⟩
    rw [picked_append, Multiset.countP_add, ← hcount]
    exact hsound.invalidations_notices hsited a h

theorem mem_liveAll (hslots : w.Slotted) : k ∈ w.liveAll ↔ w.standing? k = some .live := by
  simp only [liveAll, List.mem_flatMap, List.mem_range]
  constructor
  · rintro ⟨r, -, hk⟩
    cases hs : w.slotsAt r with
    | none => simp [liveIn_eq_nil hs] at hk
    | some s =>
      obtain ⟨rfl, hh, hj⟩ := (mem_liveIn hs (hslots r _ _ hs)).mp hk
      rw [standing?_of_slotsAt hs, if_pos hh.symm, hj]
  · intro hk
    cases hs : w.slotsAt k.record with
    | none => simp [standing?, hs] at hk
    | some s =>
      rw [standing?_of_slotsAt hs] at hk
      split_ifs at hk with hh
      obtain ⟨rec, hr, -⟩ := Option.map_eq_some_iff.mp hs
      exact ⟨k.record, (Array.getElem?_eq_some_iff.mp hr).1,
        (mem_liveIn hs (hslots _ _ _ hs)).mpr ⟨rfl, hh.symm, hk⟩⟩

theorem nodup_liveAll (hslots : w.Slotted) : w.liveAll.Nodup := by
  have hrecord {k : Registration} {r : RecordId} (hk : k ∈ w.liveIn r) : k.record = r := by
    cases hs : w.slotsAt r with
    | none => simp [liveIn_eq_nil hs] at hk
    | some s => exact ((mem_liveIn hs (hslots r _ _ hs)).mp hk).1
  rw [liveAll, List.nodup_flatMap]
  refine ⟨fun r _ => ?_, List.nodup_range.imp fun hne => ?_⟩
  · cases hs : w.slotsAt r with
    | none => simp [liveIn_eq_nil hs]
    | some s => exact nodup_liveIn hs (hslots r _ _ hs)
  · intro k hk hk'
    exact hne ((hrecord hk).symm.trans (hrecord hk'))

/-! ### The account of a heap -/

/-- The registrations with the allocations of a heap that a history picks out. -/
def pickedOn (h : HeapId) (f : Notice → Option Registration) (ns : List Notice) :
    Multiset Registration :=
  (picked f ns).filter (·.heap = h)

/-- The live registrations with the allocations of a heap. -/
def liveOn (w : World) (h : HeapId) : Multiset Registration :=
  (w.liveAll : Multiset Registration).filter (·.heap = h)

/-- The account of a heap's observers after a history: its counters are the numbers of
registrations that were made and told, and each registration that was made was told, left
while it was live, was made when the owner had gone, or is live still. -/
structure ObserversAccounted (w : World) (h : HeapId) (heap : Heap) (ns : List Notice) : Prop where
  registrations : heap.stats.registrations = (pickedOn h Notice.made? ns).card
  invalidations : heap.stats.invalidations = (pickedOn h Notice.told? ns).card
  parted : pickedOn h Notice.made? ns =
    pickedOn h Notice.told? ns + pickedOn h Notice.leftLive? ns +
    pickedOn h Notice.bornGone? ns + w.liveOn h
  once : (pickedOn h Notice.made? ns).Nodup

variable {heap : Heap}

theorem count_liveAll (hslots : w.Slotted) {b : Roll} (hb : w.Reflects b) (k : Registration) :
    (w.liveAll : Multiset Registration).count k = (b.isLive k).toNat := by
  rw [Multiset.coe_count, Roll.isLive, hb.standing]
  by_cases hk : w.standing? k = some .live
  · rw [List.count_eq_one_of_mem (nodup_liveAll hslots) ((mem_liveAll hslots).mpr hk)]
    simp [hk]
  · rw [List.count_eq_zero_of_not_mem fun hmem => hk ((mem_liveAll hslots).mp hmem)]
    simp [hk]

theorem accounted_foldl {grant : Nat} {as : List Action} (ha : (start grant).allSited as = true)
    (hheap : (as.foldl Action.run (start grant)).heaps[h]? = some heap) :
    (as.foldl Action.run (start grant)).ObserversAccounted h heap ((start grant).diary as) := by
  obtain ⟨hn, hinvalidations⟩ := observed_foldl ha
  obtain ⟨hallows, hreflects⟩ := hn.reflects _ (reflects_start grant)
  have hslots := (reachable_foldl grant as).sound.slotted
  obtain ⟨hparted, honce⟩ := hallows.accounted (count_liveAll hslots hreflects)
  have hregistrations := hn.counted h
  rw [admissions_start, Nat.zero_add] at hregistrations
  have htold := hinvalidations h
  simp only [admissions, World.invalidations, hheap, Option.map_some, Option.getD_some,
    Multiset.countP_eq_card_filter] at hregistrations htold
  refine ⟨hregistrations, htold, ?_, honce.filter _⟩
  have hfiltered := congrArg (Multiset.filter (·.heap = h)) hparted
  simp only [Multiset.filter_add] at hfiltered
  exact hfiltered

/-- After every run, in the midst of destruction too, a heap has counted every registration
with its allocations, and of the counted registrations those that were told are counted
again, each once: the others are live, left while they were live, or were made when the
owner had gone already. The slots hold what the diary of the run says. -/
theorem observers_accounted {grant : Nat} {as : List Action} {w : World} {h : HeapId} {heap : Heap}
    (hw : w = as.foldl Action.run (start grant)) (hsited : (start grant).allSited as = true)
    (hheap : w.heaps[h]? = some heap) :
    w.ObserversAccounted h heap ((start grant).diary as) ∧
      heap.stats.registrations - heap.stats.invalidations =
        (w.liveOn h).card + (pickedOn h Notice.leftLive? ((start grant).diary as)).card +
          (pickedOn h Notice.bornGone? ((start grant).diary as)).card ∧
      heap.stats.invalidations ≤ heap.stats.registrations ∧
      (pickedOn h Notice.told? ((start grant).diary as)).Nodup ∧
      w.standing? = (Roll.blank.enterAll ((start grant).diary as)).standing := by
  subst hw
  have hacc := accounted_foldl hsited hheap
  have hcard := congrArg Multiset.card hacc.parted
  simp only [Multiset.card_add, ← hacc.registrations, ← hacc.invalidations] at hcard
  have htold : pickedOn h Notice.told? ((start grant).diary as) ≤
      pickedOn h Notice.made? ((start grant).diary as) := by
    rw [hacc.parted, Multiset.add_assoc, Multiset.add_assoc]
    exact Multiset.le_add_right _ _
  have hreflects := ((observed_foldl hsited).1.reflects _ (reflects_start grant)).2
  exact ⟨hacc, by omega, by omega, Multiset.nodup_of_le htold hacc.once, hreflects.standing.symm⟩

/-- Of the observers of a node one leaves while it is live and one is told, since the node's
owner goes while it is borrowed; a third one comes too late. The node is destroyed after all
when its guard goes, and its observers leave. A second node keeps its observer. -/
def mixedObservers : List Action :=
  [.construct 0 ⟨.one, .node, .tracked⟩ (.single (.node 7 .plain)), .newSoft,
    .attach 0 (.soft 0), .newSoft, .attach 0 (.soft 1), .discardSoft (.soft 1), .tick,
    .lend (.soft (.soft 0)) .shared,
    .discardOwner 0, .tick, .recover, .newSoft, .attach 0 (.soft 2), .endBorrow 0,
    .discardSoft (.soft 0), .discardSoft (.soft 2), .tick, .tick, .tick, .tick, .tick, .tick, .tick,
    .tick, .tick, .construct 0 ⟨.one, .node, .tracked⟩ (.single (.node 8 .plain)), .newSoft,
    .attach 1 (.soft 3)]

theorem observers_mixedObservers : ∃ heap,
    (mixedObservers.foldl Action.run (start defaultGrant)).heaps[0]? = some heap ∧
      heap.stats.registrations = 4 ∧ heap.stats.invalidations = 1 ∧
      (pickedOn 0 Notice.told? ((start defaultGrant).diary mixedObservers)).Nodup ∧
      heap.stats.registrations - heap.stats.invalidations = 1 + 1 + 1 := by
  obtain ⟨heap, hheap⟩ := Option.isSome_iff_exists.mp
    (show ((mixedObservers.foldl Action.run (start defaultGrant)).heaps[0]?).isSome = true
      by decide)
  obtain ⟨hacc, hbalance, -, htold, -⟩ := observers_accounted rfl (by decide) hheap
  have hmade : pickedOn 0 Notice.made? ((start defaultGrant).diary mixedObservers) =
      {⟨0, 0, ⟨0, 0⟩⟩, ⟨0, 0, ⟨1, 0⟩⟩, ⟨0, 0, ⟨1, 1⟩⟩, ⟨0, 1, ⟨0, 0⟩⟩} := by decide
  have htoldOne : pickedOn 0 Notice.told? ((start defaultGrant).diary mixedObservers) =
      {⟨0, 0, ⟨0, 0⟩⟩} := by decide
  have hleft : pickedOn 0 Notice.leftLive? ((start defaultGrant).diary mixedObservers) =
      {⟨0, 0, ⟨1, 0⟩⟩} := by decide
  have hborn : pickedOn 0 Notice.bornGone? ((start defaultGrant).diary mixedObservers) =
      {⟨0, 0, ⟨1, 1⟩⟩} := by decide
  have hlive :
      (mixedObservers.foldl Action.run (start defaultGrant)).liveOn 0 = {⟨0, 1, ⟨0, 0⟩⟩} := by
    decide
  rw [hleft, hborn, hlive] at hbalance
  refine ⟨heap, hheap, ?_, ?_, htold, hbalance⟩
  · rw [hacc.registrations, hmade]
    rfl
  · rw [hacc.invalidations, htoldOne]
    rfl

end World

end Custody

import Custody.Proofs.Heap.Diary

/-! What every action does to registrations is what the diary notes of it. An observer registers
under a ticket that was not issued before; one that goes gives its ticket up, and a finalizer
that copies a handle does both at once. Main result: `Sound.observed_run`. -/

namespace Custody

namespace World

variable {u v w : World} {r : RecordId} {rec : Record} {h : HeapId} {t t' : SlotTable}
  {ns : List Notice}

/-! ### Registering -/

/-- Whether every record's slots are in order. -/
def Slotted (w : World) : Prop := ∀ r h t, w.slotsAt r = some (h, t) → t.Sound

theorem Sound.slotted (hw : w.Sound) : w.Slotted := by
  intro r h t hs
  obtain ⟨rec, hr, heq⟩ := Option.map_eq_some_iff.mp hs
  obtain ⟨rfl, rfl⟩ := Prod.mk.inj heq
  exact (hw.agrees hr).enrolled.slots

theorem Slotted.of_slotsAt (hw : w.Slotted) (hs : v.slotsAt = w.slotsAt) : v.Slotted :=
  fun r h t ht => hw r h t (hs ▸ ht)

/-- A ticket is one of the record's slots; an observer without one takes none. -/
theorem nextTicket_cases {o : Option Ticket} (ho : rec.nextTicket = .ok o) :
    (∃ j, o = some j ∧ rec.slots.nextTicket = .ok j ∧
        rec.enrol.slots = rec.slots.enrol rec.standing) ∨
      o = none ∧ rec.enrol = rec := by
  unfold Record.nextTicket at ho
  unfold Record.enrol
  split_ifs at ho ⊢ with hm
  · cases hj : rec.slots.nextTicket with
    | error e => simp [hj, Except.map] at ho
    | ok j =>
      rw [hj] at ho
      exact .inl ⟨j, (Except.ok.inj ho).symm, rfl, rfl⟩
  · exact .inr ⟨(Except.ok.inj ho).symm, rfl⟩

/-- Only the slots of one record change, as `f` says. -/
theorem changes_modifyRecord {f : Record → Record} (hr : w.records[r]? = some rec)
    (hh : (f rec).heap = rec.heap) :
    w.Changes r rec.heap rec.slots (f rec).slots (w.modifyRecord r f) where
  before := slotsAt_of_record hr
  after q := by
    rw [slotsAt, replaces_modifyRecord hr f q]
    split_ifs
    · rw [Option.map_some, hh]
    · rfl

theorem slotsAt_of_replaces {new : Record} (hr : w.records[r]? = some rec) (hv : w.Replaces r new v)
    (hh : new.heap = rec.heap) (hs : new.slots = rec.slots) : v.slotsAt = w.slotsAt := by
  funext q
  rw [slotsAt, hv q]
  split_ifs with hq
  · subst hq
    rw [slotsAt_of_record hr, Option.map_some, hh, hs]
  · rfl

theorem Changes.congr (hc : w.Changes r h t t' v) (hu : u.records = v.records) :
    w.Changes r h t t' u where
  before := hc.before
  after q := by
    rw [← hc.after q, slotsAt, slotsAt, hu]

theorem admissions_noteRegistered {j : Ticket} (hr : w.records[r]? = some rec)
    (hh : rec.heap < w.heaps.size) (q : HeapId) :
    (w.noteRegistered r (some j)).admissions q =
      w.admissions q + if rec.heap = q then 1 else 0 := by
  simp only [noteRegistered, hr, Option.isSome_some, if_true, admissions, modifyHeap,
    Array.getElem?_modify]
  by_cases hq : rec.heap = q
  · subst hq
    simp [hh, Heap.noteRegistered, Stats.registered]
  · simp [hq]

theorem noteRegistered_none (r : RecordId) : w.noteRegistered r none = w := by
  unfold noteRegistered
  split <;> rfl

theorem size_heaps_noteRegistered (r : RecordId) (o : Option Ticket) :
    (w.noteRegistered r o).heaps.size = w.heaps.size := by
  unfold noteRegistered
  split
  · rfl
  · split_ifs
    · simp [modifyHeap]
    · rfl

theorem picked_made_told (ks : List Registration) : picked Notice.made? (ks.map .told) = 0 := by
  simp [picked, List.filterMap_map, Function.comp_def]

theorem countP_made_singleton (k : Registration) (s : Standing) (q : HeapId) :
    (picked Notice.made? [.made k s]).countP (·.heap = q) = if k.heap = q then 1 else 0 := by
  simp [picked, ← Multiset.cons_zero, Multiset.countP_cons]

/-- The observer of a record that is watched registers. -/
theorem observed_watch (hslots : w.Slotted) (hsited : w.Sited) (r : RecordId) :
    w.Observed (w.watch r).2 (w.enrolment r) := by
  cases hr : w.records[r]? with
  | none =>
    have hw : w.watch r = (.ok none, w) := by simp [watch, hr]
    rw [enrolment, hw]
    exact (Unseen.refl w).observed
  | some rec =>
    by_cases hh : rec.handles = 0
    · have hw : w.watch r = (.ok none, w) := by simp [watch, hr, hh]
      rw [enrolment, hw]
      exact (Unseen.refl w).observed
    · cases ho : rec.nextTicket with
      | error e =>
        have hw : w.watch r = (.error e, w) := by simp [watch, hr, hh, ho]
        rw [enrolment, hw]
        exact (Unseen.refl w).observed
      | ok o =>
        have hw : w.watch r = (.ok (some ⟨r, o⟩),
            (w.modifyRecord r fun rec => rec.enrol.acquire).noteRegistered r o) := by
          simp [watch, hr, hh, ho]
        have hmod := replaces_modifyRecord hr fun rec => rec.enrol.acquire
        have hheap : rec.enrol.acquire.heap = rec.heap := by simp
        rw [enrolment, hw, hr]
        obtain ⟨j, rfl, hj, hslot⟩ | ⟨rfl, hsame⟩ := nextTicket_cases ho
        · have hlt : rec.heap < w.heaps.size := hsited r _ _ (slotsAt_of_record hr)
          have hslot' : rec.enrol.acquire.slots = rec.slots.enrol rec.standing := hslot
          have hc := (changes_modifyRecord (f := fun rec => rec.enrol.acquire) hr hheap).congr
            (records_noteRegistered r (some j))
          rw [hslot'] at hc
          have hsound := hslots r _ _ (slotsAt_of_record hr)
          refine ⟨fun b hb => hc.reflects_enrol hsound hj hb, fun q => ?_, ?_⟩
          · rw [admissions_noteRegistered hmod.self (by rw [hheap]; exact hlt),
              countP_made_singleton, hheap]
            rfl
          · exact hc.sited (size_heaps_noteRegistered (w := w.modifyRecord r _) r (some j)).ge
        · rw [noteRegistered_none]
          exact (unseen_of_slots (slotsAt_of_replaces hr hmod hheap (by rw [hsame]; rfl))
            rfl).observed

/-- What comes of a registration is put somewhere. -/
theorem Observed.unseen (hn : w.Observed v ns) (hu : v.Unseen u) : w.Observed u ns := by
  have hboth := hn.trans hu.observed
  rwa [List.append_nil] at hboth

theorem observed_of_watch (hslots : w.Slotted) (hsited : w.Sited)
    {o : Except HeapRefusal Soft} (hw : w.watch r = (o, v)) (hu : v.Unseen u) :
    w.Observed u (w.enrolment r) := by
  have hwatch := observed_watch hslots hsited r
  rw [hw] at hwatch
  exact hwatch.unseen hu

theorem observed_attach (hslots : w.Slotted) (hsited : w.Sited) (r : RecordId) (p : SoftPlace) :
    w.Observed (w.attach r p).2 (w.notices (.attach r p)) := by
  rw [attach, notices]
  split_ifs
  · split
    · rename_i hw
      exact observed_of_watch hslots hsited hw (.refl _)
    · rename_i hw
      exact observed_of_watch hslots hsited hw
        (unseen_of_eq (records_setSoft p _) (heaps_setSoft p _))
  · exact (Unseen.refl w).observed

theorem observed_newScan (hslots : w.Slotted) (hsited : w.Sited) (r : RecordId) (i : UInt64) :
    w.Observed (w.newScan (some r) i).2 (w.enrolment r) := by
  unfold newScan
  dsimp only
  split
  · rename_i hw
    exact observed_of_watch hslots hsited hw (.refl _)
  · rename_i hw
    exact observed_of_watch hslots hsited hw (unseen_of_eq rfl rfl)

theorem observed_newWalk (hslots : w.Slotted) (hsited : w.Sited) (r : RecordId) (i : UInt64) :
    w.Observed (w.newWalk (some r) i).2 (w.enrolment r) := by
  unfold newWalk
  dsimp only
  split
  · rename_i hw
    exact observed_of_watch hslots hsited hw (.refl _)
  · rename_i hw
    exact observed_of_watch hslots hsited hw (unseen_of_eq rfl rfl)

/-- The copy that a finalizer makes registers and leaves at once. -/
theorem observed_copyBriefly (hslots : w.Slotted) (hsited : w.Sited) (s : Soft) :
    w.Observed (w.copyBriefly s).2 (w.brief s) := by
  cases s with
  | none => exact (Unseen.refl w).observed
  | some k =>
    cases hr : w.records[k.record]? with
    | none =>
      simp only [copyBriefly, brief, hr]
      exact (Unseen.refl w).observed
    | some rec =>
      cases ho : rec.nextTicket with
      | error e =>
        simp only [copyBriefly, brief, hr, ho]
        exact (Unseen.refl w).observed
      | ok o =>
        have hmod := replaces_modifyRecord hr Record.enrol
        have hmod' := replaces_modifyRecord hmod.self fun rec => rec.deregister o
        have hheap : rec.enrol.heap = rec.heap := by simp
        have hheap' : (rec.enrol.deregister o).heap = rec.heap := by simp
        obtain ⟨j, rfl, hj, hslot⟩ | ⟨rfl, hsame⟩ := nextTicket_cases ho
        · have hsound := hslots _ _ _ (slotsAt_of_record hr)
          have hlt : rec.heap < w.heaps.size := hsited _ _ _ (slotsAt_of_record hr)
          have hc := changes_modifyRecord (f := Record.enrol) hr hheap
          have hc' := (changes_modifyRecord (f := fun rec => rec.deregister (some j)) hmod.self
            (by simp)).congr (records_noteRegistered k.record (some j))
          have hslot' : (rec.enrol.deregister (some j)).slots =
              ((rec.slots.enrol rec.standing).remove j).2 := by rw [← hslot]; rfl
          rw [hslot] at hc hc'
          rw [hslot', hheap] at hc'
          have hfound : (rec.slots.enrol rec.standing).find? j = some rec.standing := by
            rw [hsound.find?_enrol hj, Function.update_self]
          simp only [copyBriefly, brief, hr, ho]
          refine ⟨fun b hb => ?_, fun q => ?_, fun hw => ?_⟩
          · obtain ⟨hmade, hb'⟩ := hc.reflects_enrol hsound hj hb
            obtain ⟨hended, hb''⟩ := hc'.reflects_remove hfound hb'
            exact ⟨⟨hmade.1, hended⟩, hb''⟩
          · have hcount : picked Notice.made? [.made ⟨rec.heap, k.record, j⟩ rec.standing,
                .ended ⟨rec.heap, k.record, j⟩ rec.standing] =
                picked Notice.made? [.made ⟨rec.heap, k.record, j⟩ rec.standing] := rfl
            have hkept : ((w.modifyRecord k.record Record.enrol).modifyRecord k.record
                fun rec => rec.deregister (some j)).admissions = w.admissions := rfl
            rw [admissions_noteRegistered hmod'.self (by rw [hheap']; exact hlt), hheap', hcount,
              countP_made_singleton, hkept]
          · have hsize :=
              size_heaps_noteRegistered (w := (w.modifyRecord k.record Record.enrol).modifyRecord
              k.record fun rec => rec.deregister (some j)) k.record (some j)
            exact hc'.sited hsize.ge (hc.sited le_rfl hw)
        · simp only [copyBriefly, brief, hr, ho, noteRegistered_none]
          have hback := slotsAt_of_replaces hmod.self hmod' (hheap'.trans hheap.symm) rfl
          have hkept := slotsAt_of_replaces hr hmod hheap (by rw [hsame])
          exact (unseen_of_slots (hback.trans hkept) rfl).observed

/-- All live observers of a record are told. -/
theorem observed_invalidate (hslots : w.Slotted) (r : RecordId) :
    w.Observed (w.invalidate r) ((w.liveIn r).map .told) := by
  unfold invalidate
  cases hr : w.records[r]? with
  | none =>
    have hnone : w.liveIn r = [] := by simp [liveIn, slotsAt, hr]
    rw [hnone]
    exact (Unseen.refl w).observed
  | some rec =>
    have hc := changes_modifyRecord
      (f := fun rec' => { rec' with slots := rec.slots.update fun _ _ => .gone }) hr rfl
    refine Observed.unseen (v := w.modifyRecord r _) ?_ (unseen_invalidated _ _)
    refine ⟨fun b hb => hc.reflects_dismiss (hslots r _ _ (slotsAt_of_record hr)) hb, fun q => ?_,
      hc.sited le_rfl⟩
    rw [picked_made_told, Multiset.countP_zero]
    rfl

/-- An observer that goes away gives up its registration. -/
theorem observed_dropSoft (s : Soft) : w.Observed (w.dropSoft s) (w.farewell s) := by
  cases s with
  | none => exact (Unseen.refl w).observed
  | some k =>
    obtain ⟨r, o⟩ := k
    refine Observed.unseen (v := w.modifyRecord r fun rec => rec.deregister o) ?_
      (unseen_schedule _)
    cases o with
    | none => exact (unseen_of_slots (slotsAt_modifyRecord r _ fun _ => ⟨rfl, rfl⟩) rfl).observed
    | some j =>
      cases hr : w.records[r]? with
      | none =>
        simp only [farewell, slotsAt, hr, Option.map_none]
        have hkept : (w.modifyRecord r fun rec => rec.deregister (some j)).slotsAt = w.slotsAt := by
          funext q
          simp only [slotsAt, modifyRecord, Array.getElem?_modify]
          split_ifs with hq
          · rw [← hq, hr, Option.map_none]
          · rfl
        exact (unseen_of_slots hkept rfl).observed
      | some rec =>
        simp only [farewell, slotsAt_of_record hr]
        have hc := changes_modifyRecord (f := fun rec => rec.deregister (some j)) hr (by simp)
        cases hj : rec.slots.find? j with
        | none =>
          have hslot : (rec.deregister (some j)).slots = rec.slots :=
            SlotTable.remove_of_not_found (by rw [SlotTable.remove_fst, hj]; rfl)
          exact (unseen_of_slots (slotsAt_of_replaces hr
            (replaces_modifyRecord hr fun rec => rec.deregister (some j)) (by simp) hslot)
              rfl).observed
        | some s =>
          refine ⟨fun b hb => hc.reflects_remove hj hb, fun q => ?_, hc.sited le_rfl⟩
          rfl

theorem Unseen.observed_after (hu : u.Unseen w) (hn : w.Observed v ns) : u.Observed v ns :=
  hu.observed.trans hn

theorem Unseen.sited (hu : w.Unseen v) (hw : w.Sited) : v.Sited := hu.observed.sited hw

/-- A finalizer reports, and looks at a copy of its handle if it is set to. -/
theorem observed_finalize (hslots : w.Slotted) (hsited : w.Sited) (value : Int64) (f : Finalizer)
    (prev : Soft) :
    w.Observed (w.finalize value f prev) (if f.probes then w.brief prev else []) := by
  have hlog : w.Unseen { w with log := .dropped value :: w.log } := unseen_of_eq rfl rfl
  have hcopy := observed_copyBriefly (w := { w with log := .dropped value :: w.log })
    (hslots.of_slotsAt rfl) (hlog.sited hsited) prev
  unfold finalize
  split_ifs
  · refine Observed.unseen (Observed.unseen (hlog.observed_after hcopy) ?_) (unseen_raise _)
    exact unseen_of_eq rfl rfl
  · exact (hlog.observed_after hcopy).unseen (unseen_of_eq rfl rfl)
  · exact hlog.observed.unseen (unseen_raise _)
  · exact hlog.observed

theorem observed_dropItem (hslots : w.Slotted) (hsited : w.Sited) (i : Item) :
    w.Observed (w.dropItem i) (w.noticesOf (.dropItem i)) := by
  cases i with
  | node value f next prev =>
    exact (observed_finalize hslots hsited value f prev).unseen (unseen_schedule _)
  | bucket head =>
    have hkept : w.Unseen (w.dropItem (.bucket head)) := unseen_of_eq rfl rfl
    exact hkept.observed
  | entry key next =>
    have hkept : w.Unseen (w.dropItem (.entry key next)) := unseen_of_eq rfl rfl
    exact hkept.observed
  | unit | int | byte => exact (Unseen.refl w).observed

/-- An owner goes: if its object is borrowed, the observers are told. -/
theorem observed_dropOwner (hslots : w.Slotted) (o : Owner)
    (ho : ∀ r, o = some r → w.records[r]?.any Record.orphaned = false) :
    w.Observed (w.dropOwner o) (w.noticesOf (.dropOwner o)) := by
  cases o with
  | none => exact (Unseen.refl w).observed
  | some r =>
    have hf : (w.schedule [.forget r]).records[r]?.any Record.orphaned = false := ho r rfl
    have hb : (w.schedule [.forget r]).isBorrowed r = w.isBorrowed r := rfl
    simp only [dropOwner, noticesOf, hb]
    split_ifs
    · simp only [orphan, hf, Bool.false_eq_true, if_false]
      obtain ⟨u, hu⟩ : ∃ u, u = (w.schedule [.forget r]).modifyRecord r fun rec =>
        { rec with orphaned := true } := ⟨_, rfl⟩
      have hsame : u.slotsAt = w.slotsAt := by
        rw [hu, slotsAt_modifyRecord r _ fun _ => by exact ⟨rfl, rfl⟩]
        rfl
      have hkept : w.Unseen u := unseen_of_slots hsame (by rw [hu]; rfl)
      have htold := observed_invalidate (hslots.of_slotsAt hsame) r
      rw [show u.liveIn r = w.liveIn r by rw [liveIn, liveIn, hsame]] at htold
      rw [← hu]
      exact (hkept.observed_after htold).unseen (unseen_raise _)
    · exact (Unseen.trans (unseen_schedule _) (unseen_demolish r)).observed

theorem unseen_forget (r : RecordId) : w.Unseen (w.forget r) := by
  unfold forget
  have hleft :
      (w.modifyRecord r fun rec => { rec with handles := rec.handles - 1 }).slotsAt = w.slotsAt :=
    slotsAt_modifyRecord r _ fun _ => ⟨rfl, rfl⟩
  dsimp only
  split_ifs
  · exact (unseen_of_slots hleft rfl).trans (unseen_demolish r)
  · exact unseen_of_slots hleft rfl

theorem observed_perform (hslots : w.Slotted) (hsited : w.Sited) (t : Task)
    (ho : ∀ r, t = .dropOwner (some r) → w.records[r]?.any Record.orphaned = false) :
    w.Observed (w.perform t) (w.noticesOf t) := by
  cases t with
  | dropOwner o => exact observed_dropOwner hslots o fun r hr => ho r (hr ▸ rfl)
  | dropSoft s => exact observed_dropSoft s
  | dropItem i => exact observed_dropItem hslots hsited i
  | retire r => exact (observed_invalidate hslots r).unseen (unseen_returnBlock r)
  | forget r => exact (unseen_forget r).observed
  | abandon h b => exact (unseen_release h b false).observed

theorem Sound.observed_tick (hw : w.Sound) (hsited : w.Sited) :
    w.Observed w.tick (w.notices .tick) := by
  cases hp : w.pending with
  | nil =>
    simp only [tick, notices, hp]
    exact (Unseen.refl w).observed
  | cons t rest =>
    simp only [tick, notices, hp]
    have hpop : w.Unseen { w with pending := rest } := unseen_of_eq rfl rfl
    refine hpop.observed_after (observed_perform (w := { w with pending := rest })
      (hw.slotted.of_slotsAt rfl) (hpop.sited hsited) t fun r hr => ?_)
    subst hr
    obtain ⟨rec, -, hrec, -, horph⟩ := hw.record_of_dropOwner hp
    simp [hrec, horph]

/-! ### Every action -/

/-- The slots of a record that is built are all free. -/
theorem observed_push {growth : UInt64} {cap : UInt32} {grant : Nat}
    (hr : v.records = w.records.push rec) (hh : v.heaps = w.heaps)
    (hs : rec.slots = .empty growth cap grant) (hsite : rec.heap < w.heaps.size) :
    w.Observed v [] := by
  have hold (q) (hq : q ≠ w.records.size) : v.slotsAt q = w.slotsAt q := by
    rw [slotsAt, slotsAt, hr, Array.getElem?_push, if_neg hq]
  have hnone : w.slotsAt w.records.size = none := by simp [slotsAt]
  have hnew : v.slotsAt w.records.size = some (rec.heap, rec.slots) := by simp [slotsAt, hr]
  refine ⟨fun b hb => ⟨trivial, ?_, fun k hk => ?_⟩, fun q => ?_, fun hw q k t hq => ?_⟩
  · refine hb.standing.trans (funext fun k => ?_)
    by_cases hk : k.record = w.records.size
    · rw [standing?, standing?, hk, hnone, hnew, hs]
      simp
    · rw [standing?, standing?, hold _ hk]
  · obtain ⟨t, ht, hspent⟩ := hb.spent k hk
    have hne : k.record ≠ w.records.size := fun he => by
      rw [he, hnone] at ht
      cases ht
    exact ⟨t, (hold _ hne).trans ht, hspent⟩
  · rw [admissions, admissions, hh, picked_nil, Multiset.countP_zero, Nat.add_zero]
  · rw [hh]
    by_cases he : q = w.records.size
    · rw [he, hnew] at hq
      obtain ⟨rfl, -⟩ := Prod.mk.inj (Option.some.inj hq)
      exact hsite
    · exact hw q k t ((hold q he).symm.trans hq)

theorem observed_construct {h : HeapId} (hh : h < w.heaps.size) (k : Kind) (p : Plan) :
    w.Observed (w.construct h k p).2 [] := by
  rw [construct_eq]
  split
  · exact (Unseen.refl w).observed
  · split
    · exact (Unseen.refl w).observed
    · rename_i b v hv
      have hkept := unseen_allocate hv
      split
      · refine (hkept.trans (Unseen.trans ?_ (unseen_raise _))).observed
        exact unseen_of_eq rfl rfl
      · refine hkept.observed_after (observed_push rfl rfl rfl ?_)
        exact hh.trans_le hkept.heaps

theorem Sound.observed_run (hw : w.Sound) (hsited : w.Sited) {a : Action}
    (ha : a.isSited w = true) : w.Observed (a.run w) (w.notices a) := by
  cases a with
  | attach r p => exact observed_attach hw.slotted hsited r p
  | newScan o i =>
    cases o with
    | none =>
      exact Unseen.observed (unseen_of_eq rfl rfl : w.Unseen (Action.run w (.newScan none i)))
    | some r => exact observed_newScan hw.slotted hsited r i
  | newWalk o i =>
    cases o with
    | none =>
      exact Unseen.observed (unseen_of_eq rfl rfl : w.Unseen (Action.run w (.newWalk none i)))
    | some r => exact observed_newWalk hw.slotted hsited r i
  | construct h k p => exact observed_construct (of_decide_eq_true ha) k p
  | tick => exact hw.observed_tick hsited
  | openHeap | allot | fill | giveBack | reclaim | setDetecting =>
    exact (unseen_run_of_heaps rfl).observed
  | lend | duplicate | endBorrow => exact (unseen_run_of_borrows rfl).observed
  | put | exchangeLink | exchangeBack => exact (unseen_run_of_elements rfl).observed
  | resetOwner | resetLink => exact (unseen_run_of_resets rfl).observed
  | _ => exact (unseen_run_of_variables rfl).observed

end World

end Custody

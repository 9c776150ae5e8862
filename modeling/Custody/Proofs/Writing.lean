import Custody.Proofs.Borrowing

/-! Who changes an object. An object that is there is changed through an exclusive guard on
it, or it is taken out to be destroyed; whatever else is done leaves it as it is. -/

namespace Custody

/-- The guard that an action goes through to change an object. -/
def Action.writer? : Action → Option Nat
  | .put g _ | .exchangeLink g .. | .exchangeBack g .. | .resetLink g _ => some g
  | _ => none

namespace World

variable {u v w : World} {q r : RecordId} {a : Action}

/-- Whether an action changes the object of `r` through an exclusive guard on it. -/
def Writes (w : World) (a : Action) (r : RecordId) : Prop :=
  ∃ g guard, a.writer? = some g ∧ w.writable? g = some guard ∧ guard.record = r

/-- From `w` to `v` the object of `r` stays as it is, or is taken out. -/
def Stays (r : RecordId) (w v : World) : Prop := v.object? r = w.object? r ∨ v.object? r = none

theorem Stays.trans (h : Stays r u v) (k : Stays r v w) : Stays r u w := by
  obtain hw | hw := k
  · exact h.imp hw.trans hw.trans
  · exact .inr hw

theorem object?_congr (h : v.records = w.records) : v.object? = w.object? := by
  funext r
  rw [object?, object?, h]

theorem stays_congr (h : v.object? = w.object?) : Stays r w v := .inl (congrFun h r)

theorem stays_of_records (h : v.records = w.records) : Stays r w v := stays_congr (object?_congr h)

/-- What a guard is on was not taken out. -/
theorem Sound.object?_of_stays (h : v.Sound) (hs : Stays r w v) (hg : v.IsGuarded r) :
    v.object? r = w.object? r := by
  obtain ⟨g, hg, rfl⟩ := hg
  obtain ⟨items, b, ho, -⟩ := h.kept_of_guard hg
  exact hs.resolve_right (by simp [ho])

/-! ### Destruction -/

theorem object?_modify {f : Record → Record} (hf : ∀ rec, (f rec).object = rec.object)
    (q : RecordId) : (w.modifyRecord q f).object? = w.object? := funext (object?_modifyRecord hf q)

theorem object?_modifyRecord_of_ne {f : Record → Record} (h : q ≠ r) :
    (w.modifyRecord q f).object? r = w.object? r := by
  simp only [object?, modifyRecord, Array.getElem?_modify, if_neg h]

theorem demolish_of_empty (ho : w.object? r = none) : w.demolish r = w := by
  unfold demolish
  split
  · rfl
  · rename_i rec hr
    rw [object?_of_record hr] at ho
    simp only [ho]

theorem object?_demolish_of_ne (h : q ≠ r) : (w.demolish q).object? r = w.object? r := by
  unfold demolish
  split
  · rfl
  · split
    · rfl
    · exact object?_modifyRecord_of_ne h

theorem stays_demolish (q : RecordId) : Stays r w (w.demolish q) := by
  by_cases hq : q = r
  · subst hq
    exact .inr (object?_demolish q)
  · exact .inl (object?_demolish_of_ne hq)

theorem object?_invalidate (q : RecordId) : (w.invalidate q).object? = w.object? := by
  unfold invalidate
  split
  · rfl
  · rename_i rec _
    have hm := object?_modify (w := w)
      (f := fun old => { old with slots := rec.slots.dismissAll.2 }) (fun _ => rfl) q
    exact (object?_congr rfl).trans hm

theorem object?_returnBlock (q : RecordId) : (w.returnBlock q).object? = w.object? := by
  unfold returnBlock
  split
  · rfl
  · split
    · rfl
    · have hm :=
        object?_modify (w := w) (f := fun rec => { rec with block := none }) (fun _ => rfl) q
      exact (object?_congr rfl).trans hm

theorem object?_orphan (q : RecordId) : (w.orphan q).object? = w.object? := by
  unfold orphan
  split_ifs
  · rfl
  · rw [object?_invalidate]
    exact object?_modify (f := fun rec => { rec with orphaned := true }) (fun _ => rfl) q

theorem Probes.object? (h : w.Probes v) : v.object? = w.object? := by
  obtain hr | ⟨q, rec, t, hrec, -, hrep⟩ := h
  · exact object?_congr hr
  · funext p
    rw [World.object?, World.object?, hrep p]
    split_ifs with hp
    · subst hp
      simp [hrec]
    · rfl

theorem object?_dropItem (i : Item) : (w.dropItem i).object? = w.object? := by
  cases i with
  | node value f next prev => exact (probes_finalize value f prev).object?
  | unit | int | byte | bucket | entry => rfl

theorem stays_perform (t : Task) : Stays r w (w.perform t) := by
  cases t with
  | dropOwner o =>
    cases o with
    | none => exact .inl rfl
    | some q =>
      simp only [perform, dropOwner]
      split_ifs
      · exact stays_congr ((object?_congr (records_raise _)).trans (object?_orphan q))
      · have hs : Stays r w (w.schedule [.forget q]) := .inl rfl
        exact hs.trans (stays_demolish q)
  | dropSoft s =>
    cases s with
    | none => exact .inl rfl
    | some k =>
      have hm := object?_modify (w := w) (fun rec => rec.object_deregister k.ticket) k.record
      exact stays_congr hm
  | dropItem i => exact stays_congr (object?_dropItem i)
  | retire q => exact stays_congr ((object?_returnBlock q).trans (object?_invalidate q))
  | forget q =>
    have hm := object?_modify (w := w) (f := fun rec => { rec with handles := rec.handles - 1 })
      (fun _ => rfl) q
    simp only [perform, forget]
    split_ifs
    · exact (stays_congr hm).trans (stays_demolish q)
    · exact stays_congr hm
  | abandon h b => exact .inl rfl

theorem stays_tick : Stays r w w.tick := by
  unfold tick
  split
  · exact .inl rfl
  · rename_i t rest _
    exact stays_perform (w := { w with pending := rest }) t

theorem stays_drain (w : World) (r : RecordId) : Stays r w w.drain :=
  drain_induction (P := Stays r w) (.inl rfl) fun _ hv => hv.trans stays_tick

/-! ### Every action -/

theorem object?_watch (q : RecordId) : (w.watch q).2.object? = w.object? := by
  obtain (hw | ⟨e, hw⟩) | ⟨t, v, hw, hreg⟩ := watch_cases (w := w) q
  · rw [hw]
  · rw [hw]
  · obtain ⟨rec, hrec, -, hv⟩ := hreg.found
    rw [hw]
    funext p
    rw [object?, object?, hv p]
    split_ifs with hp
    · subst hp
      simp [hrec]
    · rfl

/-- A new object is put into a record of its own. -/
theorem stays_construct (h : HeapId) (k : Kind) (p : Plan) (hr : (w.object? r).isSome = true) :
    Stays r w (w.construct h k p).2 := by
  have hne : r ≠ w.records.size := by
    rintro rfl
    simp [object?] at hr
  rw [construct_eq]
  split
  · exact .inl rfl
  · split
    · exact .inl rfl
    · rename_i b v hv
      obtain ⟨arena, -, hv⟩ := allocate_eq_ok hv
      have hvr : v.records = w.records := by rw [hv]; rfl
      split
      · exact stays_of_records ((records_raise _).trans hvr)
      · left
        rw [object?, object?, ← hvr, Array.getElem?_push, if_neg (by rwa [hvr])]

theorem object?_run_of_borrows (ha : a.concern = .borrows) : (a.run w).object? = w.object? := by
  funext r
  have hmap (u : World) : u.object? r = (u.records[r]?.map Record.object).join := by
    rw [object?]
    cases u.records[r]? <;> rfl
  rw [hmap, hmap, map_records_run_of_borrows ha fun _ _ => rfl]

/-- A guard on another object, or none, does not write into this one. -/
theorem not_writes {g : Nat} {guard : Guard} (hw : ¬ w.Writes a r) (ha : a.writer? = some g)
    (hg : w.writable? g = some guard) : guard.record ≠ r := fun h => hw ⟨g, guard, ha, hg, h⟩

/-- Elements are changed only in the object that the guard is on. -/
theorem object?_run_of_elements (ha : a.concern = .elements) (hw : ¬ w.Writes a r) :
    (a.run w).object? r = w.object? r := by
  cases a with
  | put g x =>
    simp only [Action.run, put]
    split
    · rfl
    · rename_i guard hguard
      exact object?_modifyRecord_of_ne (not_writes hw rfl hguard)
  | exchangeLink g i j =>
    simp only [Action.run, exchangeLink]
    split
    · rename_i guard o hguard _
      split
      · split_ifs
        · exact object?_modifyRecord_of_ne (not_writes hw rfl hguard)
        · rfl
      · rfl
    · rfl
  | exchangeBack g i p =>
    simp only [Action.run, exchangeBack]
    split
    · rename_i guard s hguard _
      split
      · rename_i item _
        split_ifs
        · have hset : (w.setElement guard.record i (item.withBack s)).object? r = w.object? r :=
            object?_modifyRecord_of_ne (not_writes hw rfl hguard)
          exact (congrFun (object?_congr (records_setSoft p _)) r).trans hset
        · rfl
      · rfl
    · rfl
  | _ => cases ha

theorem stays_run_of_resets (ha : a.concern = .resets) (hw : ¬ w.Writes a r) :
    Stays r w (a.run w) := by
  refine run_of_resets (Stays r w) ha (.inl rfl) (fun i => .inl rfl)
    (fun g guard i x hr hg => .inl ?_)
    fun u q hu => hu.trans (stays_demolish (w := u.schedule [.forget q]) q)
  exact object?_modifyRecord_of_ne (not_writes hw (hr ▸ rfl) hg)

/-- What is done without writing into an object leaves it as it is, or takes it out. -/
theorem stays_run (hr : (w.object? r).isSome = true) (hw : ¬ w.Writes a r) :
    Stays r w (a.run w) := by
  cases a with
  | openHeap | allot | fill | giveBack | reclaim | setDetecting =>
    exact stays_of_records (records_run_of_heaps rfl)
  | newScan | newWalk | attach =>
    exact run_of_observers (Stays r w) rfl (.inl rfl) (fun p => stays_congr (object?_watch p))
      fun _ _ hr _ h => h.trans (stays_of_records hr)
  | construct h k p => exact stays_construct h k p hr
  | lend | duplicate | endBorrow => exact stays_congr (object?_run_of_borrows rfl)
  | put | exchangeLink | exchangeBack => exact .inl (object?_run_of_elements rfl hw)
  | resetOwner | resetLink => exact stays_run_of_resets rfl hw
  | tick => exact stays_tick
  | _ => exact stays_of_records (records_run_of_variables rfl)

/-! ### What an exclusive guard writes -/

/-- What is written through a guard is there to be read through it. -/
theorem guarded_put {g : Nat} {guard : Guard} (hg : w.writable? g = some guard) (x : Int) :
    (w.put g x).guarded g =
      (w.guarded g).mapIdx fun i item => if guard.part.covers i then item.set x else item := by
  have hguard := guard?_of_writable? hg
  have hput : (w.put g x).guard? g = some guard := by
    rw [← hguard]
    simp only [put, hg]
    rfl
  simp only [guarded, hguard, hput]
  simp only [put, hg, modifyRecord, Array.getElem?_modify, if_true]
  cases hr : w.records[guard.record]? with
  | none => rfl
  | some rec => cases ho : rec.object <;> simp [ho]

/-! ### Owners in elements -/

variable {g i : Nat}

/-- There is no owner to reset in an element that a guard is on, or what it holds is borrowed, or
its destruction begins. -/
theorem resetLink_cases (w : World) (g i : Nat) :
    (w.resetLink g i = (.ok (), w) ∧ ∀ guard item, w.writable? g = some guard →
      w.element? guard i = some item → item.link = none) ∨
    w.resetLink g i = (.error .destroyedWhileBorrowed, w) ∨
    ∃ guard item r, w.writable? g = some guard ∧ w.element? guard i = some item ∧
      item.link = some r ∧ w.isBorrowed r = false ∧ w.resetLink g i = (.ok (),
        ((w.setElement guard.record i (item.withLink none)).schedule [.forget r]).demolish r) := by
  unfold resetLink
  cases hg : w.writable? g with
  | none => exact .inl ⟨rfl, by simp⟩
  | some guard =>
    dsimp only
    cases hi : w.element? guard i with
    | none => exact .inl ⟨rfl, fun _ _ h hitem => by cases h; cases hi.symm.trans hitem⟩
    | some item =>
      dsimp only
      cases hl : item.link with
      | none => exact .inl ⟨rfl, fun _ _ h hitem => by cases h; cases hi.symm.trans hitem; exact hl⟩
      | some r =>
        dsimp only
        split_ifs with hb
        · exact .inr (.inl rfl)
        · exact .inr (.inr ⟨guard, item, r, rfl, hi, hl, Bool.eq_false_of_not_eq_true hb, rfl⟩)

theorem resetLink_of_error {e : AccessRefusal} (h : (w.resetLink g i).1 = .error e) :
    (w.resetLink g i).2 = w := by
  obtain ⟨heq, -⟩ | heq | ⟨guard, item, r, -, -, -, -, heq⟩ := w.resetLink_cases g i
  · rw [heq]
  · rw [heq]
  · rw [heq] at h
    cases h

theorem guards_resetLink (w : World) (g i : Nat) : (w.resetLink g i).2.guards = w.guards := by
  obtain ⟨heq, -⟩ | heq | ⟨guard, item, r, -, -, -, -, heq⟩ := w.resetLink_cases g i
  · rw [heq]
  · rw [heq]
  · rw [heq, guards_of_book (book_demolish r)]
    rfl

theorem Stays.element? {guard : Guard} (h : Stays guard.record w v)
    (hv : (v.object? guard.record).isSome = true) : v.element? guard i = w.element? guard i := by
  have heq (u : World) : u.element? guard i =
      if guard.part.spans i then (u.object? guard.record).bind (·[i]?) else none := rfl
  obtain hsame | hnone := h
  · rw [heq, heq, hsame]
  · simp [hnone] at hv

theorem element?_setElement {guard : Guard} {old : Item} (h : w.element? guard i = some old)
    (new : Item) : (w.setElement guard.record i new).element? guard i = some new := by
  simp only [element?, setElement, modifyRecord, Array.getElem?_modify, if_true] at h ⊢
  split_ifs at h ⊢
  cases hr : w.records[guard.record]? with
  | none => simp [hr] at h
  | some rec =>
    cases ho : rec.object with
    | none => simp [hr, ho] at h
    | some items =>
      have hi : items[i]? = some old := by simpa [hr, ho] using h
      simp only [Option.map_some, ho, Option.bind_some]
      grind

theorem withLink_of_link {item : Item} (h : item.link = none) : item.withLink none = item := by
  cases item <;> simp_all [Item.link, Item.withLink]

/-- When an owner in an element was reset, and all that goes with that is done, the element is there
without what it owned: its object is borrowed, so it is not destroyed. -/
theorem Sound.element?_resetLink (hs : w.Sound) (h : (w.resetLink g i).1 = .ok ()) {guard : Guard}
    {item : Item} (hg : w.writable? g = some guard) (hi : w.element? guard i = some item) :
    (w.resetLink g i).2.drain.element? guard i = some (item.withLink none) := by
  have hmem : (g, guard) ∈ (w.resetLink g i).2.drain.guards := by
    rw [guards_of_book book_drain, guards_resetLink]
    exact mem_guards (guard?_of_writable? hg)
  obtain ⟨items, b, ho, -⟩ :=
    ((hs.run (.resetLink g i)).reaches (reaches_drain _)).kept_of_guard hmem
  have hthere : ((w.resetLink g i).2.drain.object? guard.record).isSome = true := by
    simp only [Action.run] at ho
    rw [ho, Option.isSome_some]
  have hdrain := stays_drain (w.resetLink g i).2 guard.record
  obtain ⟨heq, hnone⟩ | heq | ⟨other, old, r, hother, hold, -, -, heq⟩ := w.resetLink_cases g i
  · rw [hdrain.element? hthere, heq, hi, withLink_of_link (hnone guard item hg hi)]
  · rw [heq] at h
    cases h
  · obtain rfl := Option.some.inj (hg.symm.trans hother)
    obtain rfl := Option.some.inj (hi.symm.trans hold)
    rw [heq] at hdrain hthere ⊢
    rw [((stays_demolish r).trans hdrain).element? hthere]
    exact element?_setElement hi _

end World

end Custody

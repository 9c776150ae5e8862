import Custody.Proofs.Panics.Muffling

/-! Destruction does the same in a muffled world: the same tasks, in the same order, with the
same effects. A panic is noted and nothing else comes of it. -/

namespace Custody

namespace World

variable (w : World)

/-! ### The end of a destruction -/

theorem muffled_invalidate (r : RecordId) : (w.invalidate r).muffled = w.muffled.invalidate r := by
  simp only [invalidate, getElem?_records_muffled]
  cases w.records[r]? with
  | none => rfl
  | some rec =>
    dsimp only [Option.map_some]
    rw [← w.muffled_modifyRecord (f := fun rec' => { rec' with slots := rec.slots.dismissAll.2 })
      fun _ => rfl]
    refine muffled_modifyHeap _ ?_ rec.heap
    exact fun _ => rfl

theorem muffled_returnBlock (r : RecordId) :
    (w.returnBlock r).muffled = w.muffled.returnBlock r := by
  simp only [returnBlock, getElem?_records_muffled]
  cases w.records[r]? with
  | none => rfl
  | some rec =>
    dsimp only [Option.map_some, Record.muffled]
    cases rec.block with
    | none => rfl
    | some b =>
      dsimp only [Option.map_some]
      rw [← w.muffled_modifyRecord (f := fun rec => { rec with block := none }) fun _ => rfl]
      exact muffled_modifyHeap _ (fun heap => heap.muffled_release b rec.kind.mode.isTracked)
        rec.heap

/-! ### The start -/

/-- The object of a record is taken out, and its block holds some bytes. -/
def empties (c : Contents) (rec : Record) : Record :=
  { rec with object := none, block := rec.block.map fun b => { b with contents := c } }

theorem muffled_empties (c : Contents) (rec : Record) :
    (empties c rec).muffled = empties c.muffled rec.muffled := by
  simp [empties, Record.muffled, Block.muffled, Function.comp_def]

theorem demolish_of_object {r : RecordId} {rec : Record} {items : List Item}
    (hr : w.records[r]? = some rec) (ho : rec.object = some items) : w.demolish r =
      (w.modifyRecord r (empties (Item.image items))).schedule
        (items.map .dropItem ++ [.retire r]) := by
  simp only [demolish, hr, ho]
  rfl

theorem muffled_empty_schedule (r : RecordId) (items : List Item) :
    ((w.modifyRecord r (empties (Item.image items))).schedule
      (items.map .dropItem ++ [.retire r])).muffled =
    (w.muffled.modifyRecord r (empties (Item.image items).muffled)).schedule
      ((items.map Item.muffled).map .dropItem ++ [.retire r]) := by
  rw [muffled_schedule, w.muffled_modifyRecord (muffled_empties _)]
  simp [Function.comp_def, Task.muffled]

theorem muffled_demolish (r : RecordId) :
    (w.demolish r).muffled = (w.muffled.demolish r).muffled := by
  have hm := w.getElem?_records_muffled r
  cases hr : w.records[r]? with
  | none =>
    rw [hr, Option.map_none] at hm
    simp only [demolish, hr, hm, muffled_muffled]
  | some rec =>
    rw [hr, Option.map_some] at hm
    cases ho : rec.object with
    | none =>
      have hmo : rec.muffled.object = none := by rw [Record.muffled, ho, Option.map_none]
      simp only [demolish, hr, hm, ho, hmo, muffled_muffled]
    | some items =>
      have hmo : rec.muffled.object = some (items.map Item.muffled) := by
        rw [Record.muffled, ho, Option.map_some]
      rw [demolish_of_object w hr ho, demolish_of_object w.muffled hm hmo, muffled_empty_schedule,
        muffled_empty_schedule, muffled_muffled, Item.muffled_image]
      simp only [List.map_map, Function.comp_def, Item.muffled_muffled]

theorem muffled_orphan (r : RecordId) : (w.orphan r).muffled = w.muffled.orphan r := by
  simp only [orphan, w.any_record_muffled (p := Record.orphaned) (fun _ => rfl)]
  split_ifs
  · rfl
  · rw [muffled_invalidate]
    refine congrArg (invalidate · r) (muffled_modifyRecord _ ?_ r)
    exact fun _ => rfl

/-! ### Finalizers -/

theorem copyBriefly_muffled (s : Soft) : (w.muffled.copyBriefly s).1 = (w.copyBriefly s).1 ∧
    (w.copyBriefly s).2.muffled = (w.muffled.copyBriefly s).2 := by
  cases s with
  | none => exact ⟨rfl, rfl⟩
  | some k =>
    simp only [copyBriefly, getElem?_records_muffled]
    cases w.records[k.record]? with
    | none => exact ⟨rfl, rfl⟩
    | some rec =>
      dsimp only [Option.map_some]
      rw [Record.nextTicket_muffled]
      cases rec.nextTicket with
      | error e => exact ⟨rfl, rfl⟩
      | ok t =>
        have henrol : (w.modifyRecord k.record Record.enrol).muffled =
            w.muffled.modifyRecord k.record Record.enrol :=
          w.muffled_modifyRecord Record.muffled_enrol k.record
        dsimp only
        refine ⟨by rw [← henrol, isValid_muffled], ?_⟩
        rw [muffled_noteRegistered,
          muffled_modifyRecord (g := (·.deregister t)) _ fun rec =>
            rec.muffled_deregister t, henrol]

/-- A finalizer does the same up to its end. -/
theorem muffled_finalize (value : Int64) (f : Finalizer) (prev : Soft) :
    (w.finalize value f prev).muffled = w.muffled.finalize value f.muffled prev := by
  obtain ⟨u, hu⟩ : ∃ u : World, u = { w with log := .dropped value :: w.log } := ⟨_, rfl⟩
  have hum : u.muffled = { w.muffled with log := .dropped value :: w.muffled.log } := by
    rw [hu]
    rfl
  obtain ⟨hcopy, hcopied⟩ := u.copyBriefly_muffled prev
  have hpeek := u.peekNumber_muffled prev
  have hlog : (u.copyBriefly prev).2.muffled.log = (u.copyBriefly prev).2.log := rfl
  have hvalid := (u.copyBriefly prev).2.isValid_muffled prev
  simp only [finalize, Finalizer.probes_muffled, Finalizer.panics_muffled, ← hu, ← hum]
  rw [hpeek, hcopy, ← hcopied, hvalid, hlog]
  by_cases hprobes : f.probes = true
  · simp only [hprobes, if_true, Bool.false_eq_true, if_false]
    split_ifs
    · exact muffled_raise _ _
    · rfl
  · simp only [hprobes, Bool.false_eq_true, if_false]
    split_ifs
    · exact muffled_raise _ _
    · rfl

theorem muffled_dropItem (i : Item) : (w.dropItem i).muffled = w.muffled.dropItem i.muffled := by
  cases i with
  | node value f next prev =>
    simp only [dropItem, Item.muffled, muffled_schedule, muffled_finalize]
    rfl
  | unit | int | byte | bucket | entry => rfl

/-! ### Tasks -/

theorem muffled_dropOwner (o : Owner) :
    (w.dropOwner o).muffled = (w.muffled.dropOwner o).muffled := by
  cases o with
  | none => exact w.muffled_muffled.symm
  | some r =>
    have hschedule : (w.schedule [.forget r]).muffled = w.muffled.schedule [.forget r] :=
      w.muffled_schedule _
    have hborrowed := (w.schedule [.forget r]).isBorrowed_muffled r
    rw [hschedule] at hborrowed
    simp only [dropOwner, hborrowed]
    split_ifs
    · rw [muffled_raise, muffled_raise, muffled_orphan, hschedule, muffled_orphan, ← hschedule,
        muffled_muffled]
    · rw [muffled_demolish, hschedule]

theorem muffled_dropSoft (s : Soft) : (w.dropSoft s).muffled = w.muffled.dropSoft s := by
  cases s with
  | none => rfl
  | some k =>
    simp only [dropSoft, muffled_schedule]
    rw [w.muffled_modifyRecord (g := (·.deregister k.ticket)) fun rec =>
      rec.muffled_deregister k.ticket]
    rfl

theorem muffled_forget (r : RecordId) : (w.forget r).muffled = (w.muffled.forget r).muffled := by
  obtain ⟨left, hleft⟩ :
      ∃ f : Record → Record, f = fun rec => { rec with handles := rec.handles - 1 } := ⟨_, rfl⟩
  have hmodify : (w.modifyRecord r left).muffled = w.muffled.modifyRecord r left := by
    refine w.muffled_modifyRecord ?_ r
    rw [hleft]
    exact fun _ => rfl
  have hlast := (w.modifyRecord r left).any_record_muffled
    (p := fun rec => decide (rec.handles = 0) && !rec.borrow.isHeld) (fun _ => rfl) r
  rw [hmodify] at hlast
  simp only [forget, ← hleft, hlast]
  split_ifs
  · rw [muffled_demolish, hmodify]
  · rw [← hmodify, muffled_muffled]

theorem muffled_perform (t : Task) :
    (w.perform t).muffled = (w.muffled.perform t.muffled).muffled := by
  cases t with
  | dropOwner o => exact w.muffled_dropOwner o
  | dropSoft s =>
    simp only [perform, Task.muffled, muffled_dropSoft, muffled_muffled]
  | dropItem i =>
    simp only [perform, Task.muffled, muffled_dropItem, muffled_muffled, Item.muffled_muffled]
  | retire r =>
    simp only [perform, Task.muffled, muffled_returnBlock, muffled_invalidate, muffled_muffled]
  | forget r => exact w.muffled_forget r
  | abandon h b =>
    have hrelease (u : World) : (u.modifyHeap h (·.release b false)).muffled =
        u.muffled.modifyHeap h (·.release b.muffled false) :=
      u.muffled_modifyHeap (fun heap => heap.muffled_release b false) h
    simp only [perform, Task.muffled, hrelease, muffled_muffled]

theorem muffled_tick : w.tick.muffled = w.muffled.tick.muffled := by
  have hpending : w.muffled.pending = w.pending.map Task.muffled := rfl
  cases hp : w.pending with
  | nil =>
    rw [hp, List.map_nil] at hpending
    simp only [tick, hp, hpending, muffled_muffled]
  | cons t rest =>
    rw [hp, List.map_cons] at hpending
    simp only [tick, hp, hpending]
    exact muffled_perform { w with pending := rest } t

/-! ### All tasks -/

/-- Two worlds are the same but for panics: for which finalizers give up, for a panic that unwinds,
and for the bytes in which that is stored. -/
def Resembles (w v : World) : Prop := v.muffled = w.muffled

variable {u v : World} {w}

theorem Resembles.refl (w : World) : w.Resembles w := rfl

theorem Resembles.symm (h : w.Resembles v) : v.Resembles w := Eq.symm h

theorem Resembles.trans (h : u.Resembles v) (k : v.Resembles w) : u.Resembles w := Eq.trans k h

/-- What comes to the same for a world and the muffled one comes to the same for worlds that
are the same but for panics. -/
theorem Resembles.of_muffled {f : World → World} (hf : ∀ w, (f w).muffled = (f w.muffled).muffled)
    (h : w.Resembles v) : (f w).Resembles (f v) := by
  rw [Resembles, hf v, hf w, h]

theorem Resembles.tick (h : w.Resembles v) : w.tick.Resembles v.tick := h.of_muffled muffled_tick

theorem Resembles.iterate_tick (h : w.Resembles v) (n : Nat) :
    (World.tick^[n] w).Resembles (World.tick^[n] v) := by
  induction n generalizing w v with
  | zero => exact h
  | succ n ih => exact ih h.tick

theorem Resembles.pending (h : w.Resembles v) :
    v.pending.map Task.muffled = w.pending.map Task.muffled :=
  congrArg World.pending h

/-- All that is pending in one is done when it is in the other. -/
theorem Resembles.drain (h : w.Resembles v) : w.drain.Resembles v.drain := by
  obtain ⟨n, hn⟩ := drain_eq_iterate w
  have hsame := h.iterate_tick n
  have hidle : (World.tick^[n] v).pending = [] := by
    have hpending := hsame.pending
    rw [← hn, pending_drain] at hpending
    simpa using hpending
  rwa [hn, drain_of_iterate hidle]

end World

end Custody

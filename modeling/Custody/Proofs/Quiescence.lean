import Custody.Proofs.Ledger.Sources

/-! Destruction ends. Every tick makes the load smaller, so draining leaves nothing
pending, and it leaves the program's variables and its guards alone. -/

namespace Custody

namespace World

variable {u v w : World} {r : RecordId} {rec new : Record}

/-! ### The load -/

/-- What all objects weigh. -/
def objectsLoad (w : World) : Nat := (w.records.toList.map objectLoad).sum

theorem foldl_add {α : Type} (f : α → Nat) (l : List α) (n : Nat) :
    l.foldl (fun m a => m + f a) n = n + (l.map f).sum := by
  induction l generalizing n with
  | nil => simp
  | cons a l ih => rw [List.foldl_cons, ih, List.map_cons, List.sum_cons, Nat.add_assoc]

theorem load_eq : w.load = (w.pending.map taskLoad).sum + w.objectsLoad := by
  simp only [load, objectsLoad, ← Array.foldl_toList, foldl_add, Nat.zero_add]

theorem load_schedule (ts : List Task) : (w.schedule ts).load = (ts.map taskLoad).sum + w.load := by
  simp only [load_eq, schedule, List.map_append, List.sum_append, Nat.add_assoc]
  rfl

theorem Replaces.toList (h : w.Replaces r new v) (hr : w.records[r]? = some rec) :
    v.records.toList = w.records.toList.set r new := by
  have hlt : r < w.records.toList.length := by
    simpa using (Array.getElem?_eq_some_iff.mp hr).1
  refine List.ext_getElem? fun q => ?_
  rw [Array.getElem?_toList, h q, List.getElem?_set, Array.getElem?_toList]
  split_ifs <;> rfl

theorem Replaces.objectsLoad (h : w.Replaces r new v) (hr : w.records[r]? = some rec) :
    v.objectsLoad + objectLoad rec = w.objectsLoad + objectLoad new := by
  rw [World.objectsLoad, h.toList hr]
  exact sum_map_set (by simpa using hr) new

theorem Replaces.load_eq (h : w.Replaces r new v) (hr : w.records[r]? = some rec)
    (ho : new.object = rec.object) (hp : v.pending = w.pending) : v.load = w.load := by
  have hobj := h.objectsLoad hr
  have hsame : objectLoad new = objectLoad rec := by simp only [objectLoad, ho]
  rw [World.load_eq, World.load_eq, hp]
  omega

theorem load_congr (hr : v.records = w.records) (hp : v.pending = w.pending) : v.load = w.load := by
  rw [load_eq, load_eq, hp, objectsLoad, objectsLoad, hr]

theorem load_modifyRecord {f : Record → Record} (hf : ∀ rec, (f rec).object = rec.object)
    (r : RecordId) : (w.modifyRecord r f).load = w.load := by
  cases hr : w.records[r]? with
  | none =>
    refine load_congr (Array.ext_getElem? fun q => ?_) rfl
    simp only [modifyRecord, Array.getElem?_modify]
    split_ifs with hq
    · subst hq
      simp [hr]
    · rfl
  | some rec => exact (replaces_modifyRecord hr f).load_eq hr (hf rec) rfl

theorem load_modifyHeap (h : HeapId) (f : Heap → Heap) : (w.modifyHeap h f).load = w.load := rfl

/-! ### One tick -/

theorem sum_dropItem (items : List Item) :
    ((items.map Task.dropItem).map taskLoad).sum = itemLoad * items.length := by
  induction items with
  | nil => rfl
  | cons i items ih =>
    simp only [List.map_cons, List.sum_cons, ih, taskLoad, List.length_cons, Nat.mul_add]
    omega

/-- An object weighs as much in its record as in the tasks that it becomes; the task that
ends its destruction comes on top. -/
theorem load_demolish (r : RecordId) : (w.demolish r).load ≤ w.load + 1 := by
  cases hr : w.records[r]? with
  | none => simp [demolish, hr]
  | some rec =>
    cases ho : rec.object with
    | none => simp [demolish, hr, ho]
    | some items =>
      have hobj := (replaces_demolish hr ho).objectsLoad hr
      have hpending : (w.demolish r).pending = items.map .dropItem ++ [.retire r] ++ w.pending := by
        simp [demolish, hr, ho, schedule, modifyRecord]
      simp only [objectLoad, ho, Record.demolished] at hobj
      rw [load_eq, load_eq, hpending, List.map_append, List.map_append, List.sum_append,
        List.sum_append, sum_dropItem]
      simp only [List.map_cons, List.map_nil, List.sum_cons, List.sum_nil, taskLoad]
      omega

theorem load_invalidate (r : RecordId) : (w.invalidate r).load = w.load := by
  unfold invalidate
  split
  · rfl
  · rename_i rec hr
    exact (load_modifyHeap ..).trans
      (load_modifyRecord (f := fun old => { old with slots := rec.slots.dismissAll.2 })
        (fun _ => rfl) r)

theorem load_returnBlock (r : RecordId) : (w.returnBlock r).load = w.load := by
  unfold returnBlock
  split
  · rfl
  · split
    · rfl
    · rw [load_modifyHeap]
      exact load_modifyRecord (f := fun rec => { rec with block := none }) (fun _ => rfl) r

theorem load_orphan (r : RecordId) : (w.orphan r).load = w.load := by
  unfold orphan
  split_ifs
  · rfl
  · rw [load_invalidate]
    exact load_modifyRecord (f := fun rec => { rec with orphaned := true }) (fun _ => rfl) r

theorem load_raise (p : Panic) : (w.raise p).load = w.load :=
  load_congr (records_raise p) (keeps_raise p).pending

theorem Probes.load (h : w.Probes v) (hp : v.pending = w.pending) : v.load = w.load := by
  obtain hr | ⟨r, rec, t, hrec, -, hrep⟩ := h
  · exact load_congr hr hp
  · exact hrep.load_eq hrec (by simp) hp

theorem load_dropOwner (o : Owner) : (w.dropOwner o).load ≤ w.load + 3 := by
  cases o with
  | none => exact Nat.le_add_right _ _
  | some r =>
    have hs : (w.schedule [.forget r]).load = 2 + w.load := load_schedule _
    simp only [dropOwner]
    by_cases hb : (w.schedule [.forget r]).isBorrowed r = true
    · rw [if_pos hb, load_raise, load_orphan, hs]
      omega
    · rw [if_neg hb]
      have hd := load_demolish (w := w.schedule [.forget r]) r
      omega

theorem load_dropSoft (s : Soft) : (w.dropSoft s).load ≤ w.load + 2 := by
  cases s with
  | none => exact Nat.le_add_right _ _
  | some k =>
    unfold dropSoft
    rw [load_schedule, load_modifyRecord fun rec => rec.object_deregister k.ticket]
    show 2 + w.load ≤ w.load + 2
    omega

theorem load_forget (r : RecordId) : (w.forget r).load ≤ w.load + 1 := by
  have hm : (w.modifyRecord r fun rec => { rec with handles := rec.handles - 1 }).load = w.load :=
    load_modifyRecord (f := fun rec => { rec with handles := rec.handles - 1 }) (fun _ => rfl) r
  unfold forget
  dsimp only
  split_ifs
  · have hd :=
      load_demolish (w := w.modifyRecord r fun rec => { rec with handles := rec.handles - 1 }) r
    omega
  · omega

/-- The handles in an element weigh less than the element. -/
theorem load_dropItem (i : Item) : (w.dropItem i).load ≤ w.load + 8 := by
  cases i with
  | node value f next prev =>
    have hf := (probes_finalize (w := w) value f prev).load (keeps_finalize value f prev).pending
    unfold dropItem
    rw [load_schedule, hf]
    show 8 + w.load ≤ w.load + 8
    omega
  | bucket head =>
    unfold dropItem
    rw [load_schedule]
    show 4 + w.load ≤ w.load + 8
    omega
  | entry key next =>
    unfold dropItem
    rw [load_schedule]
    show 4 + w.load ≤ w.load + 8
    omega
  | unit | int | byte => exact Nat.le_add_right _ _

/-- A task that is done leaves lighter ones. -/
theorem load_perform (t : Task) : (w.perform t).load < w.load + taskLoad t := by
  cases t with
  | dropOwner o => exact Nat.lt_succ_of_le (load_dropOwner o)
  | dropSoft s =>
    have hs := load_dropSoft (w := w) s
    show (w.dropSoft s).load < w.load + 4
    omega
  | dropItem i => exact Nat.lt_succ_of_le (load_dropItem i)
  | retire r =>
    show ((w.invalidate r).returnBlock r).load < w.load + 1
    rw [load_returnBlock, load_invalidate]
    exact Nat.lt_succ_self _
  | forget r => exact Nat.lt_succ_of_le (load_forget r)
  | abandon h b => exact Nat.lt_succ_self _

theorem load_tick (h : w.pending ≠ []) : w.tick.load < w.load := by
  obtain ⟨t, rest, hp⟩ := List.exists_cons_of_ne_nil h
  have ht := load_perform (w := { w with pending := rest }) t
  have hw : w.load = { w with pending := rest }.load + taskLoad t := by
    rw [load_eq, load_eq, hp, List.map_cons, List.sum_cons]
    exact (Nat.add_assoc ..).trans (Nat.add_comm ..)
  rw [hw]
  simpa only [tick, hp] using ht

/-! ### Draining -/

theorem tick_of_idle (h : w.pending = []) : w.tick = w := by simp only [tick, h]

theorem iterate_tick_of_idle (h : w.pending = []) (n : Nat) : tick^[n] w = w :=
  Function.iterate_fixed (tick_of_idle h) n

theorem drainFor_eq (n : Nat) (w : World) : drainFor n w = tick^[n] w := by
  induction n generalizing w with
  | zero => rfl
  | succ n ih =>
    unfold drainFor
    split_ifs with h
    · exact (iterate_tick_of_idle (List.isEmpty_iff.mp h) _).symm
    · rw [ih, Function.iterate_succ_apply]

theorem pending_iterate_tick {n : Nat} (h : w.load ≤ n) : (tick^[n] w).pending = [] := by
  induction n generalizing w with
  | zero =>
    by_contra hp
    exact absurd (load_tick (w := w) hp) (by omega)
  | succ n ih =>
    by_cases hp : w.pending = []
    · rw [iterate_tick_of_idle hp, hp]
    · have := load_tick hp
      exact ih (by omega)

/-- Draining leaves nothing pending. -/
theorem pending_drain (w : World) : w.drain.pending = [] := by
  simp only [drain, drainFor_eq]
  split_ifs with h
  · exact List.isEmpty_iff.mp h
  · exact pending_iterate_tick le_rfl

theorem drain_eq_iterate (w : World) : ∃ n, w.drain = tick^[n] w := by
  simp only [drain, drainFor_eq]
  split_ifs
  · exact ⟨256, rfl⟩
  · exact ⟨_, (Function.iterate_add_apply tick _ 256 w).symm⟩

/-- However many ticks it takes until nothing is pending. -/
theorem drain_of_iterate {n : Nat} (h : (tick^[n] w).pending = []) : w.drain = tick^[n] w := by
  obtain ⟨m, hm⟩ := drain_eq_iterate w
  have hidle := pending_drain w
  rw [hm] at hidle ⊢
  obtain hle | hle := Nat.le_total n m
  · obtain ⟨k, rfl⟩ := Nat.exists_eq_add_of_le' hle
    rw [Function.iterate_add_apply, iterate_tick_of_idle h]
  · obtain ⟨k, rfl⟩ := Nat.exists_eq_add_of_le' hle
    rw [Function.iterate_add_apply, iterate_tick_of_idle hidle]

theorem drain_tick (w : World) : w.tick.drain = w.drain := by
  obtain ⟨n, hn⟩ := drain_eq_iterate w.tick
  have hidle := pending_drain w.tick
  rw [hn, ← Function.iterate_succ_apply] at hidle ⊢
  exact (drain_of_iterate hidle).symm

/-- What a tick keeps, draining keeps. -/
theorem drain_induction {P : World → Prop} (h : P w) (htick : ∀ v, P v → P v.tick) : P w.drain := by
  obtain ⟨n, hn⟩ := drain_eq_iterate w
  rw [hn]
  clear hn
  induction n with
  | zero => exact h
  | succ n ih =>
    rw [Function.iterate_succ_apply']
    exact htick _ ih

theorem hands_drain : w.drain.hands = w.hands :=
  drain_induction (P := fun v => v.hands = w.hands) rfl fun _ hv => hands_tick.trans hv

theorem book_drain : w.drain.book = w.book :=
  drain_induction (P := fun v => v.book = w.book) rfl fun _ hv => book_tick.trans hv

/-! ### A panic that unwinds goes on unwinding -/

theorem unwinding_raise {p : Panic} (h : w.unwinding = some p) (q : Panic) :
    (w.raise q).unwinding = some p := by
  rw [raise, if_pos (by rw [h, Option.isSome_some]), h]

theorem unwinding_noteRegistered (r : RecordId) (t : Option Ticket) :
    (w.noteRegistered r t).unwinding = w.unwinding := by
  unfold noteRegistered
  split
  · rfl
  · split_ifs <;> rfl

theorem unwinding_invalidate (r : RecordId) : (w.invalidate r).unwinding = w.unwinding := by
  unfold invalidate
  split <;> rfl

theorem unwinding_returnBlock (r : RecordId) : (w.returnBlock r).unwinding = w.unwinding := by
  unfold returnBlock
  split
  · rfl
  · split <;> rfl

theorem unwinding_demolish (r : RecordId) : (w.demolish r).unwinding = w.unwinding := by
  unfold demolish
  split
  · rfl
  · split <;> rfl

theorem unwinding_orphan (r : RecordId) : (w.orphan r).unwinding = w.unwinding := by
  unfold orphan
  split_ifs
  · rfl
  · exact unwinding_invalidate r

theorem unwinding_copyBriefly (s : Soft) : (w.copyBriefly s).2.unwinding = w.unwinding := by
  unfold copyBriefly
  split
  · rfl
  · split
    · rfl
    · split
      · rfl
      · exact unwinding_noteRegistered _ _

theorem unwinding_finalize {p : Panic} (h : w.unwinding = some p) (value : Int64) (f : Finalizer)
    (prev : Soft) : (w.finalize value f prev).unwinding = some p := by
  have hcopy := unwinding_copyBriefly (w := { w with log := .dropped value :: w.log }) prev
  unfold finalize
  split_ifs
  · refine unwinding_raise ?_ _
    exact hcopy.trans h
  · exact hcopy.trans h
  · refine unwinding_raise ?_ _
    exact h
  · exact h

theorem unwinding_perform {p : Panic} (h : w.unwinding = some p) (t : Task) :
    (w.perform t).unwinding = some p := by
  cases t with
  | dropOwner o =>
    cases o with
    | none => exact h
    | some r =>
      simp only [perform, dropOwner]
      split_ifs
      · exact unwinding_raise ((unwinding_orphan (w := w.schedule [.forget r]) r).trans h) _
      · exact (unwinding_demolish r).trans h
  | dropSoft s => cases s <;> exact h
  | dropItem i =>
    cases i with
    | node value f next prev => exact unwinding_finalize h value f prev
    | unit | int | byte | bucket | entry => exact h
  | retire r => exact ((unwinding_returnBlock r).trans (unwinding_invalidate r)).trans h
  | forget r =>
    simp only [perform, forget]
    split_ifs
    · exact (unwinding_demolish r).trans h
    · exact h
  | abandon => exact h

theorem unwinding_tick {p : Panic} (h : w.unwinding = some p) : w.tick.unwinding = some p := by
  unfold tick
  split
  · exact h
  · rename_i t rest _
    exact unwinding_perform (w := { w with pending := rest }) h t

theorem unwinding_drain {p : Panic} (h : w.unwinding = some p) : w.drain.unwinding = some p :=
  drain_induction (P := fun v => v.unwinding = some p) h fun _ hv => unwinding_tick hv

end World

end Custody

import Custody.Proofs.Heap.Requests
import Custody.Proofs.Memory.Extents
import Mathlib.Logic.Relation

/-! Changes that move no block between a heap and the program, and none out of a quarantine.
Handles, guards and destruction leave the heaps alone but for what they note of
registrations, of invalidations and of detection. -/

namespace Custody

open Relation

/-- Whether a request moves no block between a heap and the program. -/
def Heap.Request.IsNote : Heap.Request → Prop
  | .allocated _ | .release .. => False
  | .reclaim | .setDetecting _ | .registered | .invalidated _ => True

/-- Whether a request leaves the blocks that are kept alone too. -/
def Heap.Request.IsMemo : Heap.Request → Prop
  | .allocated _ | .release .. | .reclaim => False
  | .setDetecting _ | .registered | .invalidated _ => True

theorem Heap.Request.IsMemo.isNote {r : Heap.Request} (h : r.IsMemo) : r.IsNote := by
  cases r with
  | allocated | release | reclaim => cases h
  | setDetecting | registered | invalidated => trivial

/-- Whether an action moves no block, empties no quarantine and opens no heap. -/
def Action.IsStill : Action → Prop
  | .openHeap _ | .allot .. | .construct .. | .giveBack .. | .reclaim _ | .tick => False
  | _ => True

namespace World

/-- One such change. -/
inductive Still (w v : World) : Prop where
  | rest : v.heaps = w.heaps → v.charges = w.charges → v.arena = w.arena → Still w v
  | note (h : HeapId) (r : Heap.Request) : r.IsMemo → v.heaps = w.heaps.modify h (·.obey r) →
    v.charges = w.charges → v.arena = w.arena → Still w v

def Stills : World → World → Prop := ReflTransGen Still

variable {u v w : World}

theorem Stills.refl (w : World) : Stills w w := ReflTransGen.refl

theorem Still.once (h : Still w v) : Stills w v := ReflTransGen.single h

theorem Stills.trans (h : Stills u v) (k : Stills v w) : Stills u w :=
  ReflTransGen.trans h k

theorem Stills.charges (h : Stills w v) : v.charges = w.charges := by
  induction h with
  | refl => rfl
  | tail _ hd ih =>
    cases hd with
    | rest _ hc _ | note _ _ _ _ hc _ => rw [hc, ih]

theorem Stills.size_heaps (h : Stills w v) : v.heaps.size = w.heaps.size := by
  induction h with
  | refl => rfl
  | tail _ hd ih =>
    cases hd with
    | rest hh _ _ => rw [hh, ih]
    | note _ _ _ hh _ _ => rw [hh, Array.size_modify, ih]

/-- Handles and guards hold no memory. -/
theorem stills_of_eq (hr : v.records = w.records) (hb : v.blocks = w.blocks)
    (hp : v.pending = w.pending) (hh : v.heaps = w.heaps) (ha : v.arena = w.arena) :
    Stills w v := by
  refine Still.once (.rest hh ?_ ha)
  rw [charges, charges, hr, hb, hp]

/-- Only the block of a record matters, and whose it is. -/
theorem stills_modifyRecord (r : RecordId) (f : Record → Record)
    (hf : ∀ rec, Charge.ofRecord (f rec) = Charge.ofRecord rec) :
    Stills w (w.modifyRecord r f) := by
  refine Still.once (.rest rfl ?_ rfl)
  have := tally_modify_of_eq (f := Charge.ofRecord) (l := w.records.toList) (i := r) (g := f)
    fun rec _ => hf rec
  simp only [charges, modifyRecord, Array.toList_modify, this]

theorem stills_note (h : HeapId) (r : Heap.Request) (hr : r.IsMemo) :
    Stills w (w.modifyHeap h (·.obey r)) := Still.once (.note h r hr rfl rfl rfl)

theorem stills_schedule (ts : List Task) (ht : ∀ t ∈ ts, Charge.ofTask t = 0) :
    Stills w (w.schedule ts) := by
  refine Still.once (.rest rfl ?_ rfl)
  simp only [charges, schedule, tally_append, tally_eq_zero ht, zero_add]

theorem charges_pop {t : Task} {rest : List Task} (h : w.pending = t :: rest) :
    w.charges = Charge.ofTask t + { w with pending := rest }.charges := by
  simp only [charges, h, tally_cons]
  ac_rfl

theorem stills_pop {t : Task} {rest : List Task} (h : w.pending = t :: rest)
    (ht : Charge.ofTask t = 0) : Stills w { w with pending := rest } := by
  have hpop := charges_pop h
  rw [ht, zero_add] at hpop
  exact Still.once (.rest rfl hpop.symm rfl)

/-! ### Destruction -/

theorem stills_raise (p : Panic) : Stills w (w.raise p) := by
  unfold raise
  split_ifs
  · exact .refl w
  · exact stills_of_eq rfl rfl rfl rfl rfl

theorem stills_noteRegistered (r : RecordId) (t : Option Ticket) :
    Stills w (w.noteRegistered r t) := by
  unfold noteRegistered
  split
  · exact .refl w
  · split_ifs
    · exact stills_note _ .registered trivial
    · exact .refl w

theorem stills_invalidate (r : RecordId) : Stills w (w.invalidate r) := by
  unfold invalidate
  split
  · exact .refl w
  · refine (stills_modifyRecord r _ ?_).trans (stills_note _ (.invalidated _) trivial)
    exact fun _ => rfl

theorem stills_demolish (r : RecordId) : Stills w (w.demolish r) := by
  unfold demolish
  split
  · exact .refl w
  · split
    · exact .refl w
    · refine (stills_modifyRecord r _ fun rec => ?_).trans (stills_schedule _ fun t ht => ?_)
      · simp only [Charge.ofRecord, Extent.ofRecord]
        cases rec.block <;> rfl
      · obtain ht | ht := List.mem_append.mp ht
        · obtain ⟨i, -, rfl⟩ := List.mem_map.mp ht
          rfl
        · obtain rfl := List.mem_singleton.mp ht
          rfl

theorem stills_orphan (r : RecordId) : Stills w (w.orphan r) := by
  unfold orphan
  split_ifs
  · exact .refl w
  · refine (stills_modifyRecord r _ ?_).trans (stills_invalidate r)
    exact fun _ => rfl

theorem ofRecord_enrol_charge (rec : Record) : Charge.ofRecord rec.enrol = Charge.ofRecord rec := by
  simp [Charge.ofRecord, Extent.ofRecord]

theorem ofRecord_deregister_charge (rec : Record) (t : Option Ticket) :
    Charge.ofRecord (rec.deregister t) = Charge.ofRecord rec := by
  simp [Charge.ofRecord, Extent.ofRecord]

theorem stills_copyBriefly (s : Soft) : Stills w (w.copyBriefly s).2 := by
  unfold copyBriefly
  split
  · exact .refl w
  · split
    · exact .refl w
    · split
      · exact .refl w
      · exact ((stills_modifyRecord _ _ ofRecord_enrol_charge).trans
          (stills_modifyRecord _ _ fun rec => ofRecord_deregister_charge rec _)).trans
          (stills_noteRegistered _ _)

theorem stills_log (log : List Event) : Stills w { w with log := log } :=
  stills_of_eq rfl rfl rfl rfl rfl

theorem stills_finalize (value : Int64) (f : Finalizer) (prev : Soft) :
    Stills w (w.finalize value f prev) := by
  have hlog : Stills w { w with log := .dropped value :: w.log } := stills_log _
  have hcopy := hlog.trans (stills_copyBriefly prev)
  unfold finalize
  split_ifs
  · exact (hcopy.trans (stills_log _)).trans (stills_raise _)
  · exact hcopy.trans (stills_log _)
  · exact hlog.trans (stills_raise _)
  · exact hlog

theorem stills_dropItem (i : Item) : Stills w (w.dropItem i) := by
  cases i with
  | node value f next prev =>
    refine (stills_finalize value f prev).trans (stills_schedule _ ?_)
    simp [Charge.ofTask]
  | bucket head =>
    refine stills_schedule _ ?_
    simp [Charge.ofTask]
  | entry key next =>
    refine (stills_log _).trans (stills_schedule _ ?_)
    simp [Charge.ofTask]
  | unit | int | byte => exact .refl w

/-- Only the end of a destruction and an array that was never finished give a block back. -/
theorem stills_perform {t : Task} (hr : ∀ r, t ≠ .retire r) (ha : ∀ h b, t ≠ .abandon h b) :
    Stills w (w.perform t) := by
  cases t with
  | dropOwner o =>
    cases o with
    | none => exact .refl w
    | some r =>
      have hsched : Stills w (w.schedule [.forget r]) := stills_schedule _ (by simp [Charge.ofTask])
      simp only [perform, dropOwner]
      split_ifs
      · exact (hsched.trans (stills_orphan r)).trans (stills_raise _)
      · exact hsched.trans (stills_demolish r)
  | dropSoft s =>
    cases s with
    | none => exact .refl w
    | some k =>
      exact (stills_modifyRecord k.record _ fun rec => ofRecord_deregister_charge rec _).trans
        (stills_schedule [.forget k.record] (by simp [Charge.ofTask]))
  | dropItem i => exact stills_dropItem i
  | retire r => exact absurd rfl (hr r)
  | forget r =>
    have hmod : Stills w (w.modifyRecord r Record.left) := stills_modifyRecord _ _ fun _ => rfl
    simp only [perform, forget]
    split_ifs
    · exact hmod.trans (stills_demolish r)
    · exact hmod
  | abandon h b => exact absurd rfl (ha h b)

/-! ### Actions -/

theorem stills_setSoft (p : SoftPlace) (s : Soft) : Stills w (w.setSoft p s) := by
  cases p <;> exact stills_of_eq rfl rfl rfl rfl rfl

theorem stills_watch (r : RecordId) : Stills w (w.watch r).2 := by
  unfold watch
  split
  · exact .refl w
  · split_ifs
    · exact .refl w
    · split
      · exact .refl w
      · exact (stills_modifyRecord r (fun rec => rec.enrol.acquire) ofRecord_enrol_charge).trans
          (stills_noteRegistered _ _)

theorem stills_fill (b : Nat) (byte : UInt8) : Stills w (w.fill b byte) := by
  refine Still.once (.rest rfl ?_ rfl)
  have := tally_modify_of_eq (f := Charge.ofLoose) (l := w.blocks.toList) (i := b)
    (g := fun o => o.map fun l => { l with block := l.block.fill byte }) fun o _ => by
      cases o <;> rfl
  simp only [charges, fill, Array.toList_modify, this]

theorem modifyHeap_congr {h : HeapId} {f g : Heap → Heap}
    (hfg : ∀ heap, w.heaps[h]? = some heap → f heap = g heap) :
    w.modifyHeap h f = w.modifyHeap h g := by
  have hheaps : w.heaps.modify h f = w.heaps.modify h g := by
    refine Array.ext_getElem? fun i => ?_
    simp only [Array.getElem?_modify]
    split_ifs with hi
    · subst hi
      cases hh : w.heaps[h]? with
      | none => rfl
      | some heap => rw [Option.map_some, Option.map_some, hfg heap hh]
    · rfl
  rw [modifyHeap, modifyHeap, hheaps]

theorem modifyHeap_self {h : HeapId} {f : Heap → Heap}
    (hf : ∀ heap, w.heaps[h]? = some heap → f heap = heap) : w.modifyHeap h f = w := by
  have hid : w.heaps.modify h (fun heap => heap) = w.heaps := by
    refine Array.ext_getElem? fun i => ?_
    simp [Array.getElem?_modify]
  rw [modifyHeap_congr hf, modifyHeap, hid]

/-- A switch of detection that is refused leaves the heap as it is. -/
theorem setDetecting_snd (h : HeapId) (on : Bool) :
    (w.setDetecting h on).2 = w.modifyHeap h (·.obey (.setDetecting on)) := by
  unfold setDetecting
  split
  · rename_i before heap heq
    obtain ⟨old, hold, hset⟩ := Option.map_eq_some_iff.mp heq
    refine modifyHeap_congr fun other hother => ?_
    obtain rfl := Option.some.inj (hold.symm.trans hother)
    simp only [Heap.obey, hset]
  · rename_i e heq
    obtain ⟨old, hold, hset⟩ := Option.map_eq_some_iff.mp heq
    refine (modifyHeap_self fun other hother => ?_).symm
    obtain rfl := Option.some.inj (hold.symm.trans hother)
    simp only [Heap.obey, hset]
  · rename_i heq
    refine (modifyHeap_self fun other hother => ?_).symm
    simp [hother] at heq

theorem stills_exchangeBack (g i : Nat) (p : SoftPlace) : Stills w (w.exchangeBack g i p) := by
  unfold exchangeBack
  split
  · split
    · split_ifs
      · refine (stills_modifyRecord _ _ ?_).trans (stills_setSoft p _)
        exact fun _ => rfl
      · exact .refl w
    · exact .refl w
  · exact .refl w

theorem stills_setElement (r : RecordId) (i : Nat) (item : Item) :
    Stills w (w.setElement r i item) := stills_modifyRecord _ _ fun _ => rfl

theorem stills_exchangeLink (g i j : Nat) : Stills w (w.exchangeLink g i j) := by
  unfold exchangeLink
  split
  · split
    · split_ifs
      · exact (stills_setElement _ _ _).trans (stills_of_eq rfl rfl rfl rfl rfl)
      · exact .refl w
    · exact .refl w
  · exact .refl w

theorem stills_resetOwner (i : Nat) : Stills w (w.resetOwner i).2 := by
  unfold resetOwner
  split
  · exact .refl w
  · rename_i r _
    split_ifs
    · exact .refl w
    · have hset : Stills w (w.setOwner i none) := stills_of_eq rfl rfl rfl rfl rfl
      exact (hset.trans (stills_schedule _ (by simp [Charge.ofTask]))).trans (stills_demolish r)

theorem stills_resetLink (g i : Nat) : Stills w (w.resetLink g i).2 := by
  unfold resetLink
  split
  · exact .refl w
  · split
    · exact .refl w
    · split
      · exact .refl w
      · rename_i r _
        split_ifs
        · exact .refl w
        · exact ((stills_setElement _ _ _).trans
            (stills_schedule _ (by simp [Charge.ofTask]))).trans (stills_demolish r)

theorem stills_lend (s : Source) (a : Access) : Stills w (w.lend s a).2 := by
  unfold lend
  split
  · exact .refl w
  · rename_i r _
    split
    · exact .refl w
    · split
      · exact .refl w
      · exact .refl w
      · rename_i borrow _ _
        have hm : Stills w (w.modifyRecord r fun rec => { rec with borrow := borrow }) :=
          stills_modifyRecord _ _ fun _ => rfl
        exact hm.trans (stills_of_eq rfl rfl rfl rfl rfl)

theorem stills_duplicate (g : Nat) : Stills w (w.duplicate g).2 := by
  unfold duplicate
  split
  · rename_i r source part _
    split
    · rename_i borrow _
      have hm : Stills w (w.modifyRecord r fun rec => { rec with borrow := borrow }) :=
        stills_modifyRecord _ _ fun _ => rfl
      exact hm.trans (stills_of_eq rfl rfl rfl rfl rfl)
    · exact .refl w
  · exact .refl w

theorem stills_endBorrow (g : Nat) : Stills w (w.endBorrow g) := by
  unfold endBorrow
  split
  · exact .refl w
  · rename_i guard _
    have hm : Stills w (w.modifyRecord guard.record fun rec =>
        { rec with borrow := rec.borrow.release guard.access }) :=
      stills_modifyRecord _ _ fun _ => rfl
    exact hm.trans (stills_of_eq rfl rfl rfl rfl rfl)

theorem stills_put (g : Nat) (x : Int) : Stills w (w.put g x) := by
  unfold put
  split
  · exact .refl w
  · exact stills_modifyRecord _ _ fun _ => rfl

theorem stills_vacate (p : SoftPlace) : Stills w (w.vacate p) := by
  cases p <;> exact stills_of_eq rfl rfl rfl rfl rfl

theorem stills_scrapNode (x : Int64) (f : Finalizer) (i : Nat) (p : SoftPlace) :
    Stills w (w.scrapNode x f i p) := by
  unfold scrapNode
  split_ifs
  · have howner : Stills w (w.setOwner i none) := stills_of_eq rfl rfl rfl rfl rfl
    exact (howner.trans (stills_vacate p)).trans (stills_schedule _ (by simp [Charge.ofTask]))
  · exact .refl w

theorem stills_run_of_variables {a : Action} (ha : a.concern = .variables) :
    Stills w (a.run w) := by
  cases a with
  | newOwner | newSoft | narrow | moveScan | moveWalk => exact stills_of_eq rfl rfl rfl rfl rfl
  | scrap s => exact stills_schedule _ (by simp [Charge.ofTask])
  | scrapNode x f i p => exact stills_scrapNode x f i p
  | swapOwners i j =>
    simp only [Action.run, swapOwners]
    split
    · split_ifs
      · exact .refl w
      · exact stills_of_eq rfl rfl rfl rfl rfl
    · exact .refl w
  | swapSofts p q =>
    simp only [Action.run, swapSofts]
    split
    · split_ifs
      · exact (stills_setSoft p _).trans (stills_setSoft q _)
      · exact .refl w
    · exact .refl w
  | discardOwner i =>
    simp only [Action.run, discardOwner]
    split_ifs
    · exact .refl w
    · refine Stills.trans (v := w.setOwner i none) (stills_of_eq rfl rfl rfl rfl rfl) ?_
      exact stills_schedule _ (by simp [Charge.ofTask])
  | discardSoft p =>
    simp only [Action.run, discardSoft]
    split_ifs
    · exact .refl w
    · exact (stills_vacate p).trans (stills_schedule _ (by simp [Charge.ofTask]))
  | raise p => exact stills_raise p
  | recover =>
    simp only [Action.run, recover]
    split_ifs
    · exact stills_of_eq rfl rfl rfl rfl rfl
    · exact .refl w
  | clearLog => exact stills_log []
  | _ => cases ha

theorem stills_run {a : Action} (ha : a.IsStill) : Stills w (a.run w) := by
  cases a with
  | fill b byte => exact stills_fill b byte
  | setDetecting h on =>
    rw [Action.run, setDetecting_snd]
    exact stills_note h (.setDetecting on) trivial
  | newScan r i =>
    exact newScan_frame (Stills w) r i (.refl w) stills_watch fun _ _ hv =>
      hv.trans (stills_of_eq rfl rfl rfl rfl rfl)
  | newWalk r i =>
    exact newWalk_frame (Stills w) r i (.refl w) stills_watch fun _ _ hv =>
      hv.trans (stills_of_eq rfl rfl rfl rfl rfl)
  | attach r p =>
    exact attach_frame (Stills w) r p (.refl w) (stills_watch r) fun _ s hv =>
      hv.trans (stills_setSoft p s)
  | resetOwner i => exact stills_resetOwner i
  | resetLink g i => exact stills_resetLink g i
  | lend s a => exact stills_lend s a
  | duplicate g => exact stills_duplicate g
  | endBorrow g => exact stills_endBorrow g
  | put g x => exact stills_put g x
  | exchangeLink g i j => exact stills_exchangeLink g i j
  | exchangeBack g i p => exact stills_exchangeBack g i p
  | openHeap | allot | construct | giveBack | reclaim | tick => cases ha
  | _ => exact stills_run_of_variables rfl

end World

end Custody

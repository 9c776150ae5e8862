import Custody.Proofs.Ledger.Invariant

/-! What destruction does to the ledger: each task that is done is one `Holding.Step` for
every record. -/

namespace Custody

open Stake

namespace World

variable {w : World} {r : RecordId} {rec : Record}

/-- From `w` to `v` no guard and no pending task changes. -/
structure Keeps (w v : World) : Prop where
  book : v.book = w.book
  pending : v.pending = w.pending

theorem Keeps.refl (w : World) : w.Keeps w := ⟨rfl, rfl⟩

theorem Keeps.trans {u v w : World} (h : u.Keeps v) (k : v.Keeps w) : u.Keeps w :=
  ⟨k.book.trans h.book, k.pending.trans h.pending⟩

/-! ### Destruction -/

theorem replaces_demolish {items : List Item} (hr : w.records[r]? = some rec)
    (ho : rec.object = some items) : w.Replaces r (rec.demolished items) (w.demolish r) := by
  simp only [demolish, hr, ho]
  exact replaces_modifyRecord hr fun rec => rec.demolished items

theorem book_demolish (r : RecordId) : (w.demolish r).book = w.book := by
  unfold demolish
  split
  · rfl
  · split <;> rfl

theorem replaces_invalidate (hr : w.records[r]? = some rec) :
    w.Replaces r { rec with slots := rec.slots.dismissAll.2 } (w.invalidate r) := by
  simp only [invalidate, hr]
  exact replaces_modifyRecord hr fun rec' => { rec' with slots := rec.slots.dismissAll.2 }

theorem keeps_invalidate (r : RecordId) : w.Keeps (w.invalidate r) := by
  unfold invalidate
  split
  · exact .refl w
  · exact ⟨rfl, rfl⟩

theorem replaces_returnBlock (hr : w.records[r]? = some rec) :
    w.Replaces r { rec with block := none } (w.returnBlock r) := by
  cases hb : rec.block with
  | some b =>
    simp only [returnBlock, hr, hb]
    exact replaces_modifyRecord hr fun rec => { rec with block := none }
  | none =>
    have hrec : { rec with block := none } = rec := by rw [← hb]
    simp only [returnBlock, hr, hb, hrec]
    exact replaces_self hr

theorem keeps_returnBlock (r : RecordId) : w.Keeps (w.returnBlock r) := by
  unfold returnBlock
  split
  · exact .refl w
  · split
    · exact .refl w
    · exact ⟨rfl, rfl⟩

theorem replaces_orphan (hr : w.records[r]? = some rec) (ho : rec.orphaned = false) :
    w.Replaces r rec.abandoned (w.orphan r) := by
  have hf : w.records[r]?.any Record.orphaned = false := by simp [hr, ho]
  simp only [orphan, hf]
  have hm := replaces_modifyRecord hr fun rec => { rec with orphaned := true }
  exact hm.trans (replaces_invalidate hm.self)

theorem keeps_orphan (r : RecordId) : w.Keeps (w.orphan r) := by
  unfold orphan
  split_ifs
  · exact .refl w
  · have hm : w.Keeps (w.modifyRecord r fun rec => { rec with orphaned := true }) := ⟨rfl, rfl⟩
    exact hm.trans (keeps_invalidate r)

theorem records_raise (p : Panic) : (w.raise p).records = w.records := by
  unfold raise
  split_ifs <;> rfl

theorem keeps_raise (p : Panic) : w.Keeps (w.raise p) := by
  unfold raise
  split_ifs
  · exact .refl w
  · exact ⟨rfl, rfl⟩

/-- What the owner of `r` means for its record: `u` is the world without that owner. -/
theorem Sound.agrees_owner {u : World} (h : w.Sound) (hs : w.stakes = {.owns r} + u.stakes) :
    ∃ rec items, w.records[r]? = some rec ∧ rec.object = some items ∧ rec.orphaned = false ∧
      w.stakesIn r = .owns r ::ₘ u.stakesIn r := by
  obtain ⟨rec, hrec⟩ : ∃ rec, w.records[r]? = some rec :=
    h.record_of_mem (s := .owns r) (by simp [hs]) rfl
  have hin := stakesIn_of_cons hs (r := r) rfl
  have hag := h.agrees hrec
  rw [hin] at hag
  obtain ⟨horph, hobj⟩ : rec.orphaned = false ∧ rec.object.isSome = true := by
    simpa [Record.isAlive] using hag.alive.1
  obtain ⟨items, hitems⟩ := Option.isSome_iff_exists.mp hobj
  exact ⟨rec, items, hrec, hitems, horph, hin⟩

/-- The owner of `r` is emptied, which leads to `u`, and what it owned is destroyed. -/
theorem step_demolish {u : World} (h : w.Sound) (hr : u.records[r]? = w.records[r]?)
    (ho : ∀ q, q ≠ r → Holding.Step q (w.holding q) (u.holding q)) (hg : u.book = w.book)
    (hs : w.stakes = {.owns r} + u.stakes) (hf : w.isBorrowed r = false) (q : RecordId) :
    Holding.Step q (w.holding q) (((u.schedule [.forget r]).demolish r).holding q) := by
  obtain ⟨rec, items, hrec, hitems, -, hin⟩ := h.agrees_owner hs
  have hfree : rec.borrow.isHeld = false := by simpa [isBorrowed, hrec] using hf
  have hu : (u.schedule [.forget r]).records[r]? = some rec := hr.trans hrec
  have hd := replaces_demolish hu hitems
  have hst : ((u.schedule [.forget r]).demolish r).stakes = {.retires r, .leaves r} + u.stakes := by
    rw [stakes_demolish hu hitems, stakes_schedule]
    simpa [ofTask] using Multiset.cons_swap _ _ _
  have hbook : ((u.schedule [.forget r]).demolish r).book = u.book := book_demolish r
  by_cases hq : q = r
  · subst hq
    rw [holding, holding, hrec, hin, hd.self, loans_congr (hbook.trans hg),
      stakesIn_add hst (r := q) (by simp [Stake.record])]
    simpa using .demolish hfree hitems
  · have hv : ((u.schedule [.forget r]).demolish r).holding q = u.holding q := by
      rw [holding, holding, hd q, if_neg (Ne.symm hq), loans_congr hbook,
        stakesIn_add hst (r := r) (by simp [Stake.record]), if_neg hq, zero_add]
      rfl
    rw [hv]
    exact ho q hq

/-- The owner of `r` goes: `u` is the world without it. -/
theorem step_dropOwner {u : World} (h : w.Sound) (hr : u.records = w.records)
    (hg : u.book = w.book) (hs : w.stakes = {.owns r} + u.stakes) (q : RecordId) :
    Holding.Step q (w.holding q) ((u.dropOwner (some r)).holding q) := by
  obtain ⟨rec, items, hrec, -, horph, hin⟩ := h.agrees_owner hs
  have hu : (u.schedule [.forget r]).records[r]? = some rec := by
    rw [← hrec, ← hr]
    rfl
  have hborrow : (u.schedule [.forget r]).isBorrowed r = rec.borrow.isHeld := by
    simp [isBorrowed, hu]
  simp only [dropOwner, hborrow]
  split_ifs with hheld
  · refine step_replace (y := {.leaves r}) hrec
      ((replaces_orphan hu horph).congr hr.symm (records_raise _)) ?_ hs ?_ ?_ ?_ ?_ q
    · exact ((keeps_orphan r).trans (keeps_raise _)).book.trans hg
    · simp [ofTask]
    · simp [Stake.record]
    · simp [Stake.record]
    · exact fun c l => by simpa using .orphan hheld
  · refine step_demolish h (congrArg (·[r]?) hr) (fun q hq => ?_) hg hs ?_ q
    · rw [holding_of_ne hr hg hs (by simp [Stake.record]) hq]
      exact .rest _
    · simpa [isBorrowed, hrec] using hheld

/-- An observing handle goes. -/
theorem step_dropSoft {u : World} {k : Watch} (h : w.Sound) (hr : u.records = w.records)
    (hg : u.book = w.book) (hs : w.stakes = {.watches k} + u.stakes) (q : RecordId) :
    Holding.Step q (w.holding q) ((u.dropSoft (some k)).holding q) := by
  obtain ⟨rec, hrec⟩ : ∃ rec, w.records[k.record]? = some rec :=
    h.record_of_mem (s := .watches k) (by simp [hs]) rfl
  have hu : u.records[k.record]? = some rec := by rw [hr, hrec]
  have hm := replaces_modifyRecord hu fun rec => rec.deregister k.ticket
  refine step_replace (v := u.dropSoft (some k)) (y := {.leaves k.record}) hrec
    (hm.congr hr.symm rfl) hg hs ?_ ?_ ?_ ?_ q
  · rw [dropSoft, stakes_schedule, stakes_modifyRecord_of_eq fun rec _ => ofRecord_deregister rec _]
    simp [ofTask]
  · simp [Stake.record]
  · simp [Stake.record]
  · exact fun c l => by simpa using .deregister

/-- A record counts one handle fewer, and an orphan may go with it. -/
theorem step_forget {u : World} (h : w.Sound) (hr : u.records = w.records)
    (hg : u.book = w.book) (hs : w.stakes = {.leaves r} + u.stakes) (q : RecordId) :
    Holding.Step q (w.holding q) ((u.forget r).holding q) := by
  obtain ⟨rec, hrec⟩ : ∃ rec, w.records[r]? = some rec :=
    h.record_of_mem (s := .leaves r) (by simp [hs]) rfl
  have hu : u.records[r]? = some rec := by rw [hr, hrec]
  have hm := replaces_modifyRecord hu Record.left
  have hms : (u.modifyRecord r Record.left).stakes = u.stakes :=
    stakes_modifyRecord_of_eq fun _ _ => rfl
  have hleave (hlast : rec.left.handles = 0 → rec.borrow.isHeld = true ∨ rec.object = none)
      (q : RecordId) : Holding.Step q (w.holding q) ((u.modifyRecord r Record.left).holding q) := by
    refine step_replace (y := 0) hrec (hm.congr hr.symm rfl) hg hs ?_ ?_ ?_ ?_ q
    · rw [hms, zero_add]
    · simp [Stake.record]
    · simp
    · exact fun c l => by simpa using .leave hlast
  change Holding.Step q _ (World.holding (if (u.modifyRecord r Record.left).records[r]?.any
    (fun rec => rec.handles = 0 && !rec.borrow.isHeld) then
    (u.modifyRecord r Record.left).demolish r else u.modifyRecord r Record.left) q)
  rw [hm.self]
  split_ifs with hlast
  · cases ho : rec.object with
    | none =>
      have hstay : (u.modifyRecord r Record.left).demolish r = u.modifyRecord r Record.left := by
        simp [demolish, hm.self, Record.left, ho]
      rw [hstay]
      exact hleave (fun _ => .inr ho) q
    | some items =>
      obtain ⟨hzero, hfree⟩ : rec.left.handles = 0 ∧ rec.left.borrow.isHeld = false := by
        simpa using hlast
      have ho' : rec.left.object = some items := ho
      refine step_replace (y := {.retires r}) hrec
        ((hm.trans (replaces_demolish hm.self ho')).congr hr.symm rfl) ?_ hs ?_ ?_ ?_ ?_ q
      · rw [book_demolish]
        exact hg
      · rw [stakes_demolish hm.self ho', hms]
      · simp [Stake.record]
      · simp [Stake.record]
      · exact fun c l => by simpa using .collapse hzero hfree ho
  · refine hleave (fun hzero => .inl ?_) q
    by_contra hfree
    have hfree : rec.left.borrow.isHeld = false := by simpa [Record.left] using hfree
    simp [hzero, hfree] at hlast

/-- The destruction of an object is over. -/
theorem step_retire {u : World} (h : w.Sound) (hr : u.records = w.records)
    (hg : u.book = w.book) (hs : w.stakes = {.retires r} + u.stakes) (q : RecordId) :
    Holding.Step q (w.holding q) (((u.invalidate r).returnBlock r).holding q) := by
  obtain ⟨rec, hrec⟩ : ∃ rec, w.records[r]? = some rec :=
    h.record_of_mem (s := .retires r) (by simp [hs]) rfl
  have hu : u.records[r]? = some rec := by rw [hr, hrec]
  have hi := replaces_invalidate hu
  have hb : u.Replaces r rec.retired ((u.invalidate r).returnBlock r) :=
    hi.trans (replaces_returnBlock hi.self)
  refine step_replace (y := 0) hrec (hb.congr hr.symm rfl) ?_ hs ?_ ?_ ?_ ?_ q
  · exact ((keeps_invalidate r).trans (keeps_returnBlock r)).book.trans hg
  · simp
  · simp [Stake.record]
  · simp
  · exact fun c l => by simpa using .retire

theorem keeps_noteRegistered (r : RecordId) (t : Option Ticket) :
    w.Keeps (w.noteRegistered r t) := by
  unfold noteRegistered
  split
  · exact .refl w
  · split_ifs
    · exact ⟨rfl, rfl⟩
    · exact .refl w

theorem records_noteRegistered (r : RecordId) (t : Option Ticket) :
    (w.noteRegistered r t).records = w.records := by
  unfold noteRegistered
  split
  · rfl
  · split_ifs <;> rfl

/-- `v` differs from `w` at most by a handle that came and went. -/
def Probes (w v : World) : Prop :=
  v.records = w.records ∨ ∃ r rec t, w.records[r]? = some rec ∧ rec.nextTicket = .ok t ∧
    w.Replaces r (rec.enrol.deregister t) v

theorem Probes.congr {v w' v' : World} (h : w.Probes v) (hw : w'.records = w.records)
    (hv : v'.records = v.records) : w'.Probes v' := by
  obtain h | ⟨r, rec, t, hr, ht, hv'⟩ := h
  · exact .inl (by rw [hv, h, hw])
  · exact .inr ⟨r, rec, t, by rw [hw, hr], ht, hv'.congr hw hv⟩

theorem step_probe {v : World} (h : w.Probes v) (hs : v.stakes = w.stakes)
    (hg : v.book = w.book) (q : RecordId) : Holding.Step q (w.holding q) (v.holding q) := by
  obtain h | ⟨r, rec, t, hr, ht, hv⟩ := h
  · exact step_rest h hs hg q
  · exact step_replace (x := 0) (y := 0) hr hv hg (zero_add _).symm (by rw [hs, zero_add])
      (by simp) (by simp) (fun c l => by simpa using .probe ht) q

theorem probes_copyBriefly (s : Soft) : w.Probes (w.copyBriefly s).2 := by
  unfold copyBriefly
  split
  · exact .inl rfl
  · rename_i k
    split
    · exact .inl rfl
    · rename_i rec hrec
      split
      · exact .inl rfl
      · rename_i t ht
        have hm := replaces_modifyRecord hrec Record.enrol
        have hd := hm.trans (replaces_modifyRecord hm.self fun rec => rec.deregister t)
        exact .inr ⟨k.record, rec, t, hrec, ht, hd.congr rfl (records_noteRegistered _ _)⟩

theorem keeps_copyBriefly (s : Soft) : w.Keeps (w.copyBriefly s).2 := by
  unfold copyBriefly
  split
  · exact .refl w
  · rename_i k
    split
    · exact .refl w
    · split
      · exact .refl w
      · rename_i t _
        have hm : w.Keeps ((w.modifyRecord k.record Record.enrol).modifyRecord k.record
            fun rec => rec.deregister t) := ⟨rfl, rfl⟩
        exact hm.trans (keeps_noteRegistered k.record t)

theorem probes_finalize (value : Int64) (f : Finalizer) (prev : Soft) :
    w.Probes (w.finalize value f prev) := by
  have hcopy := probes_copyBriefly (w := { w with log := .dropped value :: w.log }) prev
  unfold finalize
  split_ifs
  · exact hcopy.congr rfl (records_raise _)
  · exact hcopy.congr rfl rfl
  · exact .inl (records_raise _)
  · exact .inl rfl

theorem keeps_log (log : List Event) : w.Keeps { w with log := log } := ⟨rfl, rfl⟩

theorem keeps_finalize (value : Int64) (f : Finalizer) (prev : Soft) :
    w.Keeps (w.finalize value f prev) := by
  have hlog := keeps_log (w := w) (.dropped value :: w.log)
  have hcopy := hlog.trans (keeps_copyBriefly prev)
  unfold finalize
  split_ifs
  · exact (hcopy.trans (keeps_log _)).trans (keeps_raise _)
  · exact hcopy.trans (keeps_log _)
  · exact hlog.trans (keeps_raise _)
  · exact hlog

theorem probes_dropItem (i : Item) : w.Probes (w.dropItem i) := by
  cases i with
  | node value f next prev => exact (probes_finalize value f prev).congr rfl rfl
  | unit | int | byte | bucket | entry => exact .inl rfl

theorem book_dropItem (i : Item) : (w.dropItem i).book = w.book := by
  cases i with
  | node value f next prev => exact (keeps_finalize value f prev).book
  | unit | int | byte | bucket | entry => rfl

/-- A task is done; `u` is the world without it. -/
theorem step_perform {u : World} {t : Task} (h : w.Sound) (hr : u.records = w.records)
    (hg : u.book = w.book) (hs : w.stakes = ofTask t + u.stakes) (q : RecordId) :
    Holding.Step q (w.holding q) ((u.perform t).holding q) := by
  cases t with
  | dropOwner o =>
    cases o with
    | none => exact step_rest hr (by rw [hs, ofTask, ofOwner_none, zero_add]) hg q
    | some r => exact step_dropOwner h hr hg hs q
  | dropSoft s =>
    cases s with
    | none => exact step_rest hr (by rw [hs, ofTask, ofSoft_none, zero_add]) hg q
    | some k => exact step_dropSoft h hr hg hs q
  | dropItem i =>
    refine step_probe ((probes_dropItem i).congr hr.symm rfl) ?_ ((book_dropItem i).trans hg) q
    rw [hs, ofTask]
    exact stakes_dropItem i
  | retire r => exact step_retire h hr hg hs q
  | forget r => exact step_forget h hr hg hs q
  | abandon => exact step_rest hr (by rw [hs, ofTask, zero_add]) hg q

/-- Destruction leaves the guards alone. -/
theorem book_perform (t : Task) : (w.perform t).book = w.book := by
  cases t with
  | dropOwner o =>
    cases o with
    | none => rfl
    | some r =>
      simp only [perform, dropOwner]
      split_ifs
      · exact ((keeps_orphan r).trans (keeps_raise _)).book
      · rw [book_demolish]
        rfl
  | dropSoft s => cases s <;> rfl
  | dropItem i => exact book_dropItem i
  | retire r => exact ((keeps_invalidate r).trans (keeps_returnBlock r)).book
  | forget r =>
    simp only [perform, forget]
    split_ifs
    · rw [book_demolish]
      rfl
    · rfl
  | abandon => rfl

theorem book_tick : w.tick.book = w.book := by
  unfold tick
  split
  · rfl
  · rw [book_perform]
    rfl

theorem step_tick (h : w.Sound) (q : RecordId) :
    Holding.Step q (w.holding q) (w.tick.holding q) := by
  cases hp : w.pending with
  | nil =>
    simp only [tick, hp]
    exact .rest _
  | cons t rest =>
    simp only [tick, hp]
    exact step_perform (u := { w with pending := rest }) h rfl rfl (stakes_pop hp) q

end World

end Custody

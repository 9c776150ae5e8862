import Custody.Proofs.Orphans
import Custody.Proofs.Ownership
import Custody.Proofs.Writing
import Custody.Proofs.Panics.Actions

/-! What comes of a destruction in which finalizers give up. The program that started it ends in the
first panic, and everything else is as if there had been none: the handle that was to go is empty,
the same objects are destroyed, once each, the same observers are told, and the same blocks go back.
Nothing is said of a program that aborts at a second panic while one unwinds: here the first one
unwinds on. -/

namespace Custody

namespace Op

variable {m : Manner} {o : OwnerPlace} {w u : World} {e : AccessRefusal}

theorem run_reset_of_ok (h : w.resetAt o = (.ok (), u)) :
    (reset m o).run.run w = quiesce.run.run u := by
  have hact : (Act.resetAt o).run w = (.ok (), u) := h
  have hpermitted : (inManner m (permitted (Act.resetAt o))).run.run w = (.ok (), u) := by
    cases m with
    | attempt => rw [inManner, run_permitted, hact]
    | insist => rw [run_insist, run_permitted, hact]
  rw [reset, run_bind, hpermitted]

/-- A refusal is passed on, or it is a panic; nothing is destroyed. -/
theorem run_reset_of_error (h : w.resetAt o = (.error e, w)) : (reset m o).run.run w =
    match m with
    | .attempt => (.error (.refused (.access e)), w)
    | .insist => (.error (.panicked (.fatal (.access e))), w.raise (.fatal (.access e))) := by
  have hact : (Act.resetAt o).run w = (.error e, w) := h
  cases m with
  | attempt => rw [reset, run_bind, inManner, run_permitted, hact]
  | insist => rw [reset, run_bind, run_insist, run_permitted, hact]

end Op

namespace World

variable {v w : World} {r : RecordId}

theorem soft_vacate (p : SoftPlace) : (w.vacate p).soft p = none := by
  cases p <;> simp only [soft, vacate, soft?, setSoft, Array.getElem?_modify] <;> grind

/-! ### How often a destruction begins -/

instance (w : World) (a : Action) (r : RecordId) : Decidable (w.Begins a r) :=
  inferInstanceAs (Decidable (_ < _))

/-- How often the destruction of `r` begins while some actions are done in order. -/
def starts (r : RecordId) : World → List Action → Nat
  | _, [] => 0
  | w, a :: as => (if w.Begins a r then 1 else 0) + (a.run w).starts r as

theorem Sound.starts_of_gone (h : w.Sound) {rec : Record} (hr : w.records[r]? = some rec)
    (ho : rec.object = none) (as : List Action) :
    w.starts r as = 0 ∧ (as.foldl Action.run w).object? r = none := by
  induction as generalizing w rec with
  | nil => exact ⟨rfl, by rw [List.foldl_nil, object?_of_record hr, ho]⟩
  | cons a as ih =>
    obtain ⟨new, hnew, hlater⟩ := h.later (.once a) hr
    obtain ⟨hrest, hgone⟩ := ih (h.run a) hnew (hlater.empty ho)
    have hnot : ¬ w.Begins a r := fun hb => by
      obtain ⟨items, -, hitems, -⟩ := h.pending_begins hb
      rw [object?_of_record hr, ho] at hitems
      cases hitems
    rw [starts, if_neg hnot, hrest]
    exact ⟨rfl, hgone⟩

/-- The destruction of an object begins once if the object is gone in the end, and never if it is
there. -/
theorem Sound.starts_eq (h : w.Sound) (ho : (w.object? r).isSome = true) (as : List Action) :
    w.starts r as = if (as.foldl Action.run w).object? r = none then 1 else 0 := by
  induction as generalizing w with
  | nil => rw [starts, List.foldl_nil, if_neg (Option.isSome_iff_ne_none.mp ho)]
  | cons a as ih =>
    obtain ⟨items, hitems⟩ := Option.isSome_iff_exists.mp ho
    obtain ⟨rec, hr, hobj⟩ := Option.bind_eq_some_iff.mp hitems
    rw [starts, List.foldl_cons]
    cases hnew : (a.run w).object? r with
    | none =>
      obtain ⟨new, hrec, -⟩ := h.later (.once a) hr
      rw [object?_of_record hrec] at hnew
      obtain ⟨hrest, hgone⟩ := (h.run a).starts_of_gone hrec hnew as
      have hb := h.begins_of_emptied hr (by simp [hobj]) (by rw [object?_of_record hrec, hnew])
      rw [if_pos hb, hrest, if_pos hgone]
    | some left =>
      have hnot : ¬ w.Begins a r := fun hb => by
        obtain ⟨new, hrec, hret, -⟩ := h.begins hb
        rw [object?_of_record hrec, (isRetiring_iff.mp hret).1] at hnew
        cases hnew
      rw [if_neg hnot, Nat.zero_add]
      exact ih (h.run a) (by rw [hnew]; rfl)

/-! ### What is the same -/

/-- What a program and its heaps can tell of two worlds is the same, but for the low bits of the
bytes that destroyed objects leave behind. -/
structure Matches (w v : World) : Prop where
  owners : v.owner? = w.owner?
  softs : v.soft? = w.soft?
  valid : v.isValid = w.isValid
  guards : v.guards = w.guards
  /-- What finalizers reported, in this order. -/
  log : v.log = w.log
  objects : ∀ r, (v.object? r).isSome = (w.object? r).isSome
  /-- Who is registered, and who was told. -/
  slots : ∀ r : RecordId, v.records[r]?.map Record.slots = w.records[r]?.map Record.slots
  blocks : ∀ r, (v.block? r).map Block.muffled = (w.block? r).map Block.muffled
  stats : ∀ h : HeapId, v.heaps[h]?.map Heap.stats = w.heaps[h]?.map Heap.stats
  kept : ∀ h : HeapId, v.heaps[h]?.map (fun heap => heap.quarantine.blocks.map Block.muffled) =
    w.heaps[h]?.map fun heap => heap.quarantine.blocks.map Block.muffled
  ranges : ∀ h : HeapId, v.heaps[h]?.map (fun heap => heap.quarantine.index) =
    w.heaps[h]?.map fun heap => heap.quarantine.index

theorem Resembles.matches (h : w.Resembles v) : w.Matches v := by
  have hrecords (r : RecordId) :
      v.records[r]?.map Record.muffled = w.records[r]?.map Record.muffled := by
    rw [← getElem?_records_muffled, ← getElem?_records_muffled, h]
  have hheaps (i : HeapId) : v.heaps[i]?.map Heap.muffled = w.heaps[i]?.map Heap.muffled := by
    have hmuffled (u : World) : u.heaps[i]?.map Heap.muffled = u.muffled.heaps[i]? := by
      simp [muffled]
    rw [hmuffled, hmuffled, h]
  have ofRecord {α : Type} (f : Record → α) (hf : ∀ rec, f rec.muffled = f rec) (r : RecordId) :
      v.records[r]?.map f = w.records[r]?.map f := by
    have := congrArg (Option.map f) (hrecords r)
    simpa only [Option.map_map, Function.comp_def, hf] using this
  have ofHeap {α : Type} (f : Heap → α) (hf : ∀ heap, f heap.muffled = f heap) (i : HeapId) :
      v.heaps[i]?.map f = w.heaps[i]?.map f := by
    have := congrArg (Option.map f) (hheaps i)
    simpa only [Option.map_map, Function.comp_def, hf] using this
  exact
    { owners := (congrArg World.owner? h :)
      softs := funext fun p => by rw [← soft?_muffled v, ← soft?_muffled w, h]
      valid := funext fun s => by rw [← isValid_muffled v, ← isValid_muffled w, h]
      guards := (congrArg World.guards h :)
      log := (congrArg World.log h :)
      objects := fun r => by
        have := ofRecord (fun rec => rec.object.isSome) (fun rec => by simp [Record.muffled]) r
        rw [object?, object?]
        cases hv : v.records[r]? <;> cases hw : w.records[r]? <;> simp_all
      slots := ofRecord Record.slots fun _ => rfl
      blocks := fun r => by
        have := ofRecord (fun rec => rec.block.map Block.muffled)
          (fun rec => by simp [Record.muffled, Function.comp_def]) r
        rw [block?, block?]
        cases hv : v.records[r]? <;> cases hw : w.records[r]? <;> simp_all
      stats := ofHeap Heap.stats fun _ => rfl
      kept := ofHeap (fun heap => heap.quarantine.blocks.map Block.muffled)
        fun heap => by simp [Heap.muffled]
      ranges := ofHeap (fun heap => heap.quarantine.index) fun _ => rfl }

end World

/-- What a program does to let something be destroyed. -/
inductive Teardown where
  | reset (manner : Manner) (owner : Nat)
  /-- Resets the owner in an element, through an exclusive guard. -/
  | resetLink (manner : Manner) (guard element : Nat)
  | dropOwner (owner : Nat)
  | dropSoft (place : SoftPlace)

namespace Teardown

def op : Teardown → Op Unit
  | .reset m i => Op.reset m (.owner i)
  | .resetLink m g i => Op.reset m (.link g i)
  | .dropOwner i => Op.dropOwner i
  | .dropSoft p => Op.dropSoft p

/-- The action that starts the destruction. -/
def action : Teardown → Action
  | .reset _ i => .resetOwner i
  | .resetLink _ g i => .resetLink g i
  | .dropOwner i => .discardOwner i
  | .dropSoft p => .discardSoft p

/-- Whether a teardown is let through. It is refused while the object is borrowed. -/
def answer (w : World) : Teardown → Except AccessRefusal Unit
  | .reset _ i => (w.resetOwner i).1
  | .resetLink _ g i => (w.resetLink g i).1
  | .dropOwner _ | .dropSoft _ => .ok ()

/-- The world when a teardown is over, and a panic that came out of it was caught. -/
def after (t : Teardown) (w : World) : World := (t.op.run.run w).2.recover.2

/-- The handle that was to go in `w` is empty in `v`. A handle that is lent does not go. -/
def Empties (w v : World) : Teardown → Prop
  | .reset _ i => v.owner i = none
  | .resetLink _ g i => ∀ guard item, w.writable? g = some guard → w.element? guard i = some item →
      v.element? guard i = some (item.withLink none)
  | .dropOwner i => w.isLent (.owner i) = false → v.owner i = none
  | .dropSoft p => w.isLent (.soft p) = false → v.soft p = none

variable {u v w : World} {t : Teardown} {e : AccessRefusal}

theorem run_op_of_ok (h : t.answer w = .ok ()) :
    t.op.run.run w = Op.quiesce.run.run (t.action.run w) := by
  cases t with
  | reset m i => exact Op.run_reset_of_ok (Prod.ext h rfl)
  | resetLink m g i => exact Op.run_reset_of_ok (Prod.ext h rfl)
  | dropOwner i | dropSoft p => rfl

theorem run_op_of_error (h : t.answer w = .error e) : (t.op.run.run w).2 = w ∨
    (t.op.run.run w).2 = w.raise (.fatal (.access e)) := by
  have hreset (m : Manner) (o : OwnerPlace) (he : w.resetAt o = (.error e, w)) :
      ((Op.reset m o).run.run w).2 = w ∨
        ((Op.reset m o).run.run w).2 = w.raise (.fatal (.access e)) := by
    rw [Op.run_reset_of_error he]
    cases m with
    | attempt => exact .inl rfl
    | insist => exact .inr rfl
  cases t with
  | reset m i => exact hreset m (.owner i) (Prod.ext h (World.resetOwner_of_error h))
  | resetLink m g i => exact hreset m (.link g i) (Prod.ext h (World.resetLink_of_error h))
  | dropOwner i | dropSoft p => cases h

theorem answer_muffled (t : Teardown) (w : World) : t.answer w.muffled = t.answer w := by
  cases t with
  | reset m i => exact (w.resetOwner_muffled i).1
  | resetLink m g i => exact (w.resetLink_muffled g i).1
  | dropOwner i | dropSoft p => rfl

/-- How a teardown that is not refused ends. -/
structure Ends (t : Teardown) (w : World) : Prop where
  /-- In the panic that unwinds, if there is one. -/
  result : (t.op.run.run w).1 =
    (t.op.run.run w).2.unwinding.elim (.ok ()) fun p => .error (.panicked p)
  caught : (t.after w).unwinding = none
  idle : (t.after w).pending = []
  empties : t.Empties w (t.after w)
  /-- Each object that is gone was destroyed once. -/
  once : ∀ r, (w.object? r).isSome = true →
    w.starts r (t.op.run.trace w) = if (t.after w).object? r = none then 1 else 0

/-! ### The world afterwards -/

theorem run_quiesce_snd (w : World) : (Op.quiesce.run.run w).2 = w.drain := by rw [Op.run_quiesce]

theorem answer_eq (h : w.Resembles v) (t : Teardown) : t.answer v = t.answer w := by
  rw [← t.answer_muffled v, ← t.answer_muffled w, h]

/-- Where a teardown is refused, nothing changes but for a panic that says so. -/
theorem resembles_of_error (h : t.answer w = .error e) : w.Resembles (t.op.run.run w).2 := by
  obtain hw | hw := run_op_of_error h
  · rw [hw]
    exact .refl w
  · rw [hw]
    exact w.muffled_raise _

theorem resembles_op (h : w.Resembles v) (t : Teardown) :
    (t.op.run.run w).2.Resembles (t.op.run.run v).2 := by
  have hanswer := answer_eq h t
  cases hw : t.answer w with
  | ok =>
    rw [hw] at hanswer
    rw [run_op_of_ok hw, run_op_of_ok hanswer, run_quiesce_snd, run_quiesce_snd]
    exact (h.run (a := t.action) rfl).drain
  | error e =>
    rw [hw] at hanswer
    exact ((resembles_of_error hw).symm.trans h).trans (resembles_of_error hanswer)

theorem resembles_recover (w : World) : w.Resembles w.recover.2 := by
  unfold World.recover
  split_ifs <;> rfl

theorem object?_after (t : Teardown) (w : World) :
    (t.after w).object? = (t.op.run.run w).2.object? := by
  unfold after World.recover
  split_ifs <;> rfl

theorem Empties.of_drain (hw : w.Sound) (h : t.answer w = .ok ()) :
    t.Empties w (t.action.run w).drain := by
  have howner (u : World) (i : Nat) : u.drain.owner i = u.owner i := by
    rw [World.owner, World.owner?_congr World.hands_drain, World.owner]
  cases t with
  | reset m i => exact (howner _ i).trans (World.owner_resetOwner_of_ok h)
  | resetLink m g i => exact fun guard item hg hi => hw.element?_resetLink h hg hi
  | dropOwner i =>
    intro hl
    rw [howner, action, Action.run, World.discardOwner_of_not_lent hl]
    exact World.owner_setOwner_none i
  | dropSoft p =>
    intro hl
    have hsoft (u : World) : u.drain.soft p = u.soft p := by
      rw [World.soft, World.soft?_congr World.hands_drain, World.soft]
    have hdiscard : w.discardSoft p = (w.vacate p).schedule [.dropSoft (w.soft p)] := by
      rw [World.discardSoft, if_neg (by simp [hl])]
    rw [hsoft, action, Action.run, hdiscard]
    exact World.soft_vacate p

theorem ends (hw : w.Sound) (h : t.answer w = .ok ()) : t.Ends w := by
  have hrun := run_op_of_ok h
  have hend : (t.op.run.run w).2 = (t.action.run w).drain := by rw [hrun, run_quiesce_snd]
  have hidle : (t.op.run.run w).2.pending = [] := by rw [hend, World.pending_drain]
  have hafter : t.after w = { (t.action.run w).drain with unwinding := none } := by
    rw [after, hend, World.recover, if_pos (by rw [World.pending_drain]; rfl)]
  refine
    { result := ?_
      caught := by rw [hafter]
      idle := by rw [hafter]; exact World.pending_drain _
      empties := ?_
      once := fun r hr => ?_ }
  · rw [hrun, Op.run_quiesce]
    cases (t.action.run w).drain.unwinding <;> rfl
  · have hempties := Empties.of_drain hw h
    rw [hafter]
    cases t with
    | reset | resetLink | dropOwner | dropSoft => exact hempties
  · rw [object?_after, t.op.run.traced]
    exact hw.starts_eq hr _

theorem resembles_after (h : w.Resembles v) (t : Teardown) : (t.after w).Resembles (t.after v) :=
  (resembles_op h t).run (a := .recover) rfl

/-- Panics of finalizers change nothing but what comes out of a teardown. Two runs do the same, but
for which finalizers give up, and come to `w` and to `v`; then the same teardown is done in both. It
is refused in both, with nothing changed, or in neither. If it is not, it ends in a panic if there
is one, and when that was caught, the handle is empty, nothing is left to do, and each object that
is gone was destroyed once. And the worlds are the same afterwards: the objects that are left, the
observers that are registered and those that were told, the blocks that are kept, the statistics,
and what the finalizers reported. -/
theorem panics_change_nothing {as bs : List Action}
    (hab : bs.map Action.muffled = as.map Action.muffled) {grant : Nat}
    (hw : as.foldl Action.run (.start grant) = w) (hv : bs.foldl Action.run (.start grant) = v)
    (t : Teardown) : t.answer v = t.answer w ∧
    (t.answer w = .ok () → t.Ends w ∧ t.Ends v) ∧
    (∀ e, t.answer w = .error e → w.Resembles (t.after w) ∧ v.Resembles (t.after v)) ∧
    (t.after w).Resembles (t.after v) ∧ (t.after w).Matches (t.after v) := by
  have h : w.Resembles v := by
    rw [← hw, ← hv]
    exact (World.Resembles.refl (.start grant)).foldl hab
  have hws : w.Sound := (hw ▸ World.reachable_foldl grant as).sound
  have hvs : v.Sound := (hv ▸ World.reachable_foldl grant bs).sound
  have hanswer := answer_eq h t
  have hafter := resembles_after h t
  refine ⟨hanswer, fun hok => ⟨ends hws hok, ends hvs (hanswer.trans hok)⟩, fun e he => ?_,
    hafter, hafter.matches⟩
  exact ⟨(resembles_of_error he).trans (resembles_recover _),
    (resembles_of_error (hanswer.trans he)).trans (resembles_recover _)⟩

/-- A node that owns another one, both observed; `bits` are those of the first one's finalizer. -/
def owningNode (bits : Nat) : List Action :=
  [.construct 0 ⟨.one, .node, .tracked⟩ (.single (.node 7 ⟨bits⟩)),
    .construct 0 ⟨.one, .node, .tracked⟩ (.single (.node 8 .plain)), .newSoft,
    .attach 0 (.soft 0), .newSoft,
    .attach 1 (.soft 1), .lend (.owner 0) .exclusive, .exchangeLink 0 0 1, .endBorrow 0]

/-- The first one's finalizer gives up, or it does not. -/
theorem panics_change_nothing_owningNode :
    let t := Teardown.reset .attempt 0
    let w := (owningNode 1).foldl Action.run (.start World.defaultGrant)
    let v := (owningNode 0).foldl Action.run (.start World.defaultGrant)
    (t.op.run.run w).1 = .error (.panicked (.finalizer 7)) ∧ (t.op.run.run v).1 = .ok () ∧
      t.Ends w ∧ t.Ends v ∧ (t.after w).Matches (t.after v) ∧
      (t.after w).object? 1 = none := by
  intro t w v
  have hanswer : t.answer w = .ok () := rfl
  have hab : (owningNode 0).map Action.muffled = (owningNode 1).map Action.muffled := rfl
  obtain ⟨-, hends, -, -, hmatches⟩ := panics_change_nothing hab (w := w) (v := v) rfl rfl t
  obtain ⟨hw, hv⟩ := hends hanswer
  have hpanic : (t.op.run.run w).2.unwinding = some (.finalizer 7) := by decide +kernel
  have hcalm : (t.op.run.run v).2.unwinding = none := by decide +kernel
  refine ⟨?_, ?_, hw, hv, hmatches, by decide +kernel⟩
  · rw [hw.result, hpanic, Option.elim_some]
  · rw [hv.result, hcalm, Option.elim_none]

end Teardown

end Custody

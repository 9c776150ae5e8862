import Custody.Proofs.Attainment
import Custody.Proofs.Validity
import Custody.Proofs.Walks.Tables

/-! What programs do with observing handles, where the objects that they watch are alive.
A handle that is made, moved or dropped changes slots and numbers of handles, and no
object: what could be read before can be read afterwards. -/

namespace Custody

open Stake

/-- The record without its slots and the number of its handles. -/
def Record.bare (rec : Record) : Record := { rec with slots := .empty 0 0 0, handles := 0 }

namespace Record

variable (rec : Record) (t : Option Ticket)

@[simp] theorem bare_enrol : rec.enrol.bare = rec.bare := by
  unfold enrol
  split_ifs <;> rfl

@[simp] theorem bare_acquire : rec.acquire.bare = rec.bare := rfl

@[simp] theorem bare_left : rec.left.bare = rec.bare := rfl

@[simp] theorem bare_deregister : (rec.deregister t).bare = rec.bare := by cases t <;> rfl

end Record

namespace World

variable {u v w : World} {r t : RecordId} {rec : Record} {rs : List RecordId}

/-- What a record shows of its object. -/
def face (w : World) (r : RecordId) : Option Record := w.records[r]?.map Record.bare

/-- Objects and guards in `v` are as in `w`. -/
structure Alike (w v : World) : Prop where
  face : v.face = w.face
  guards : v.guards = w.guards

theorem Alike.refl (w : World) : w.Alike w := ⟨rfl, rfl⟩

theorem Alike.trans (h : u.Alike v) (k : v.Alike w) : u.Alike w :=
  ⟨k.face.trans h.face, k.guards.trans h.guards⟩

theorem softs_of_hands (h : v.hands = w.hands) : v.softs = w.softs := congrArg (fun h => h.2.1) h

theorem walks_of_hands (h : v.hands = w.hands) : v.walks = w.walks :=
  congrArg (fun h => h.2.2.2.1) h

theorem open?_eq (r : RecordId) (a : Access) :
    w.open? r a = match w.face r with
      | some rec => rec.open? a
      | none => .error .gone := by
  unfold open? face
  cases w.records[r]? <;> rfl

theorem isAlive_eq (r : RecordId) : w.isAlive r = (w.face r).any Record.isAlive := by
  unfold isAlive face
  cases w.records[r]? <;> rfl

theorem rangeLength_eq (r : RecordId) :
    w.rangeLength (some r) = ((w.face r).map Record.length).getD 0 := by
  simp only [rangeLength, face]
  cases w.records[r]? <;> rfl

theorem Alike.open? (h : w.Alike v) (r : RecordId) (a : Access) : v.open? r a = w.open? r a := by
  rw [open?_eq, open?_eq, h.face]

theorem Alike.isAlive (h : w.Alike v) (r : RecordId) : v.isAlive r = w.isAlive r := by
  rw [isAlive_eq, isAlive_eq, h.face]

theorem Alike.isLent (h : w.Alike v) (s : Source) : v.isLent s = w.isLent s := by
  rw [World.isLent, World.isLent, h.guards]

theorem Alike.chain (h : w.Alike v) {o : Owner} {rs : List RecordId} (hc : w.Chain o rs) :
    v.Chain o rs := by
  induction hc with
  | nil => exact .nil
  | cons hr _ ih => exact .cons ((h.open? _ _).trans hr) ih

theorem Alike.table (h : w.Alike v) {chains : List (List RecordId)} (ht : w.Table t chains) :
    v.Table t chains := by
  obtain ⟨items, hopen, hall⟩ := ht
  exact ⟨items, (h.open? _ _).trans hopen, hall.imp fun _ _ => h.chain⟩

theorem face_modifyRecord {f : Record → Record} (hf : ∀ rec, (f rec).bare = rec.bare)
    (r : RecordId) : (w.modifyRecord r f).face = w.face := by
  funext q
  simp only [face, modifyRecord, Array.getElem?_modify]
  split_ifs
  · cases w.records[q]? <;> simp [hf]
  · rfl

theorem Registers.face {k : Option Ticket} (h : w.Registers r k v) : v.face = w.face := by
  obtain ⟨rec, hr, -, hv⟩ := h.found
  funext q
  simp only [World.face, hv q]
  split_ifs with hq
  · subst hq
    simp [hr]
  · rfl

/-! ### One handle -/

/-- Nothing is pending and no panic unwinds. -/
structure IsCalm (w : World) : Prop where
  pending : w.pending = []
  unwinding : w.unwinding = none

/-- An alive object has its owner. -/
theorem Sound.owns_mem_stakesIn (h : w.Sound) (hr : w.records[r]? = some rec)
    (ha : rec.isAlive = true) : .owns r ∈ w.stakesIn r := by
  rw [← Multiset.count_pos, (h.agrees hr).owned, ha]
  exact Nat.one_pos

theorem Sound.handles_ne_zero_of_alive (h : w.Sound) (hr : w.records[r]? = some rec)
    (ha : rec.isAlive = true) : rec.handles ≠ 0 := by
  obtain ⟨c, hc⟩ := Multiset.exists_cons_of_mem (h.owns_mem_stakesIn hr ha)
  rw [(h.agrees hr).counted, hc, handles_owns]
  exact Nat.succ_ne_zero _

theorem unwinding_watch (r : RecordId) : (w.watch r).2.unwinding = w.unwinding := by
  unfold watch
  split
  · rfl
  · split_ifs
    · rfl
    · split
      · rfl
      · exact unwinding_noteRegistered _ _

/-- Watching an alive object either works or is refused. -/
theorem Sound.watch_alive (h : w.Sound) (ha : w.isAlive r = true) :
    (∃ e, w.refusal? r = some e ∧ w.watch r = (.error e, w)) ∨
      ∃ k v, w.watch r = (.ok (some ⟨r, k⟩), v) ∧ w.Alike v ∧ v.hands = w.hands ∧
        v.pending = w.pending ∧ v.unwinding = w.unwinding := by
  obtain ⟨rec, hr, hrec⟩ := isAlive_iff.mp ha
  have hpos := h.handles_ne_zero_of_alive hr hrec
  cases ht : rec.nextTicket with
  | error e => exact .inl ⟨e, by simp [refusal?, hr, hpos, ht], by simp [watch, hr, hpos, ht]⟩
  | ok k =>
    obtain (hw | ⟨e, hw⟩) | ⟨k', v, hw, hreg⟩ := watch_cases (w := w) r
    · simp [watch, hr, hpos, ht] at hw
    · simp [watch, hr, hpos, ht] at hw
    · have hhands := hands_watch (w := w) r
      have hpending := (keeps_watch (w := w) r).pending
      have hunwinding := unwinding_watch (w := w) r
      rw [hw] at hhands hpending hunwinding
      have halike : w.Alike v := ⟨hreg.face, guards_of_book hreg.book⟩
      exact .inr ⟨k', v, hw, halike, hhands, hpending, hunwinding⟩

/-- A variable that is not there is not borrowed through. -/
theorem Tended.not_isLent (h : w.Tended) {p : SoftPlace} (hp : w.soft? p = none) :
    w.isLent (.soft p) = false := by
  by_contra hl
  have hne := h.ne_none (Bool.eq_true_of_not_eq_false hl)
  simp [referent, soft, hp] at hne

/-- An alive object that is observed has another handle, its owner. -/
theorem Sound.one_lt_handles (h : w.Sound) {k : Watch} (hk : .watches k ∈ w.stakes)
    (hr : w.records[k.record]? = some rec) (ha : rec.isAlive = true) : 1 < rec.handles := by
  have hwatch : .watches k ∈ w.stakesIn k.record := mem_stakesIn.mpr ⟨hk, rfl⟩
  obtain ⟨c, hc⟩ := Multiset.exists_cons_of_mem (h.owns_mem_stakesIn hr ha)
  rw [hc] at hwatch
  obtain ⟨d, rfl⟩ :=
    Multiset.exists_cons_of_mem ((Multiset.mem_cons.mp hwatch).resolve_left (by simp))
  rw [(h.agrees hr).counted, hc, handles_owns, handles_watches]
  omega

/-- What an observing handle leaves when it goes: its slot is free, and its record counts one
handle fewer. -/
def letGo (w : World) : Soft → World
  | none => w
  | some k =>
    (w.modifyRecord k.record fun rec => rec.deregister k.ticket).modifyRecord k.record Record.left

theorem face_letGo (s : Soft) : (w.letGo s).face = w.face := by
  cases s with
  | none => rfl
  | some k =>
    exact (face_modifyRecord Record.bare_left _).trans
      (face_modifyRecord (fun rec => rec.bare_deregister k.ticket) _)

/-- A handle that watches nothing or an alive object goes away. -/
theorem Sound.drain_dropSoft (h : w.Sound) {s : Soft} (hp : w.pending = [.dropSoft s])
    (hs : ∀ k, s = some k → w.isAlive k.record = true) :
    w.drain = ({ w with pending := [] } : World).letGo s := by
  cases s with
  | none =>
    have htick : tick^[1] w = { w with pending := [] } := by simp [tick, hp, perform, dropSoft]
    rw [drain_of_iterate (n := 1) (by rw [htick]), htick]
    rfl
  | some k =>
    obtain ⟨rec, hr, ha⟩ := isAlive_iff.mp (hs k rfl)
    have hone :=
      h.one_lt_handles (k := k) (watches_mem_stakes.mpr (.inr (.inr (by simp [hp])))) hr ha
    -- the ticket is given up first, then the record counts one handle fewer
    let u : World :=
      { w with pending := [] }.modifyRecord k.record fun rec => rec.deregister k.ticket
    let v : World := u.modifyRecord k.record Record.left
    have hv : v.records[k.record]? = some (rec.deregister k.ticket).left := by
      simp [v, u, modifyRecord, Array.getElem?_modify, hr]
    have hfirst : w.tick = u.schedule [.forget k.record] := by
      simp only [tick, hp]
      rfl
    have hsecond : (u.schedule [.forget k.record]).tick = v := by
      change u.forget k.record = v
      have hlast :
          v.records[k.record]?.any (fun rec => rec.handles = 0 && !rec.borrow.isHeld) = false := by
        have hne : rec.handles - 1 ≠ 0 := by omega
        simp [hv, Record.left, hne]
      change (if v.records[k.record]?.any _ then v.demolish k.record else v) = v
      rw [hlast, if_neg Bool.false_ne_true]
    have htick : tick^[2] w = v := by
      rw [Function.iterate_succ_apply, Function.iterate_one, hfirst, hsecond]
    rw [drain_of_iterate (n := 2) (by rw [htick]; rfl), htick]
    rfl

end World

/-- Writing to the last place of an array. -/
theorem setIfInBounds_push_size {β : Type} (a : Array β) (x y : β) :
    (a.push x).setIfInBounds a.size y = a.push y := by
  refine Array.ext_getElem? fun i => ?_
  rw [Array.getElem?_setIfInBounds, Array.getElem?_push, Array.getElem?_push, Array.size_push]
  split_ifs <;> grind

namespace Op

open World

variable {α : Type} {u v w : World} {r t : RecordId}

/-- A heap grants an action, or refuses it. -/
theorem attains_granted {b : Act (Except HeapRefusal α)} {P : α → World → Prop}
    (hw : w.unwinding = none) (h : (∃ x v, b.run w = (.ok x, v) ∧ P x v) ∨
      ∃ e, b.run w = (.error e, w) ∧ e ∈ b.denials w) :
    (inManner .insist (granted b)).Attains w P := by
  have hrun : (granted b).run.run w = (heap (b.run w).1).run.run (b.run w).2 := rfl
  obtain ⟨x, v, hb, hx⟩ | ⟨e, hb, he⟩ := h
  · refine .inl ⟨x, v, ?_, hx⟩
    rw [run_insist, hrun, hb]
    rfl
  · refine .inr ⟨e, w.raise (.fatal (.heap e)), ?_, by simp [raise, hw], ?_⟩
    · rw [run_insist, hrun, hb]
      rfl
    · rw [denials_insist, granted, denials_bind, denials_lift]
      exact List.mem_append_left _ he

/-- A new handle is empty, and is set to the object unless that is refused. -/
theorem attains_attach (h : w.Reachable) (hc : w.IsCalm) (ha : w.isAlive r = true) :
    (inManner .insist (granted (Act.attach r (.soft w.softs.size)))).Attains w.newSoft.2 fun _ v =>
      w.Alike v ∧ v.IsCalm ∧
        ∃ k : Watch, k.record = r ∧ v.hands = { w with softs := w.softs.push (some k) }.hands := by
  let u := w.newSoft.2
  have hu : u.Reachable := h.reaches (.once .newSoft)
  have hplace : ((SoftPlace.soft w.softs.size).isLoose &&
      decide (u.soft? (.soft w.softs.size) = some none)) = true := by
    simp [u, newSoft, soft?, SoftPlace.isLoose]
  refine attains_granted hc.unwinding ?_
  obtain ⟨e, he, hw⟩ | ⟨k, v, hw, halike, hhands, hp, hunw⟩ := hu.sound.watch_alive (r := r) ha
  · have hattach : (Act.attach r (.soft w.softs.size)).run u = (.error e, u) := by
      simp only [Act.attach, Act.does, attach, if_pos hplace, hw]
    have hdenial : u.denial (.attach r (.soft w.softs.size)) = some e := by
      rw [denial, asks, if_pos hplace, Option.bind_some, he]
    refine .inr ⟨e, hattach, ?_⟩
    change e ∈ (u.denial (.attach r (.soft w.softs.size))).toList ++ []
    rw [hdenial]
    exact List.mem_singleton_self e
  · have hattach : (Act.attach r (.soft w.softs.size)).run u =
        (.ok (), v.setSoft (.soft w.softs.size) (some ⟨r, k⟩)) := by
      simp only [Act.attach, Act.does, attach, if_pos hplace, hw]
    refine .inl ⟨(), _, hattach, ⟨halike.face, halike.guards⟩,
      ⟨hp.trans hc.pending, hunw.trans hc.unwinding⟩, ⟨r, k⟩, rfl, ?_⟩
    simp only [hands, Prod.mk.injEq] at hhands ⊢
    obtain ⟨howners, hsofts, hscans, hwalks, hblocks⟩ := hhands
    have hsofts : v.softs = w.softs.push none := hsofts
    refine ⟨howners, ?_, hscans, hwalks, hblocks⟩
    rw [setSoft, hsofts]
    exact setIfInBounds_push_size _ _ _

theorem attains_watch (h : w.Reachable) (hc : w.IsCalm) (ha : w.isAlive r = true) :
    (inManner .insist (watch (some r))).Attains w fun n v =>
      n = w.softs.size ∧ w.Alike v ∧ v.IsCalm ∧
        ∃ k : Watch, k.record = r ∧ v.hands = { w with softs := w.softs.push (some k) }.hands := by
  have hnew : (inManner .insist (ExceptT.lift Act.newSoft)).run.run w =
      (.ok w.softs.size, w.newSoft.2) := by
    rw [run_insist]
    rfl
  refine Attains.insist_bind (.after hnew (.insist_bind ((attains_attach h hc ha).bind ?_)))
  intro _ v _ hv
  exact (Attains.of_run rfl ⟨rfl, hv⟩).insist

theorem attains_watch? {o : Option RecordId} (h : w.Reachable) (hc : w.IsCalm)
    (ho : ∀ r, o = some r → w.isAlive r = true) :
    (inManner .insist (watch o)).Attains w fun n v =>
      n = w.softs.size ∧ w.Alike v ∧ v.IsCalm ∧
        ∃ s : Soft, s.map Watch.record = o ∧
          v.hands = { w with softs := w.softs.push s }.hands := by
  cases o with
  | none =>
    have hrun : (watch none).run.run w = (.ok w.softs.size, w.newSoft.2) := rfl
    have hinsist : (inManner .insist (watch none)).run.run w = (.ok w.softs.size, w.newSoft.2) := by
      rw [run_insist, hrun]
    exact .of_run hinsist ⟨rfl, ⟨rfl, rfl⟩, ⟨hc.pending, hc.unwinding⟩, none, rfl, rfl⟩
  | some r =>
    refine (attains_watch h hc (ho r rfl)).mono ?_
    rintro n v - ⟨hn, halike, hcalm, k, hk, hhands⟩
    exact ⟨hn, halike, hcalm, some k, by rw [Option.map_some, hk], hhands⟩

/-- A request that registers one handle, and changes variables with it. -/
theorem attains_registering {b : Act (Except HeapRefusal α)} {x : World → α}
    {g : Watch → World → World} (h : w.Reachable) (hc : w.IsCalm) (ha : w.isAlive r = true)
    (herror : ∀ e, w.watch r = (.error e, w) → b.run w = (.error e, w))
    (hok : ∀ k v, w.watch r = (.ok (some k), v) → b.run w = (.ok (x v), g k v))
    (hd : b.denials w = (w.refusal? r).toList) :
    (inManner .insist (granted b)).Attains w fun y v =>
      ∃ (k : Watch) (u : World), k.record = r ∧ w.Alike u ∧ u.IsCalm ∧ u.hands = w.hands ∧
        y = x u ∧ v = g k u := by
  refine attains_granted hc.unwinding ?_
  obtain ⟨e, he, hw⟩ | ⟨k, v, hw, halike, hhands, hp, hunw⟩ := h.sound.watch_alive ha
  · exact .inr ⟨e, herror e hw, by rw [hd, he]; exact List.mem_singleton_self e⟩
  · exact .inl ⟨x v, _, hok _ v hw, ⟨r, k⟩, v, rfl, halike,
      ⟨hp.trans hc.pending, hunw.trans hc.unwinding⟩, hhands, rfl, rfl⟩

theorem attains_newWalk (h : w.Reachable) (hc : w.IsCalm) (ha : w.isAlive t = true)
    (i : UInt64) :
    (inManner .insist (granted (Act.newWalk (some t) i))).Attains w fun n v =>
      n = w.walks.size ∧ w.Alike v ∧ v.IsCalm ∧
        ∃ k : Walk, k.node = none ∧ k.buckets.array.map Watch.record = some t ∧
          k.buckets.position = .clamped i (UInt64.ofNat (w.rangeLength (some t))) ∧
          v.hands = { w with walks := w.walks.push k }.hands := by
  let walk (k : Watch) (v : World) : Walk := ⟨none, ⟨some k, v.positionIn (some k) i⟩⟩
  refine (@attains_registering _ _ _ _ (fun v => v.walks.size)
    (fun k v => { v with walks := v.walks.push (walk k v) }) h hc ha ?_ ?_ (List.append_nil _)).mono
      ?_
  · intro e hw
    simp only [Act.newWalk, Act.does, newWalk, hw]
  · intro k v hw
    simp only [Act.newWalk, Act.does, newWalk, hw, walk]
  · rintro n v - ⟨k, u, hk, halike, hcalm, hhands, rfl, rfl⟩
    have hlength : u.rangeLength (some t) = w.rangeLength (some t) := by
      rw [rangeLength_eq, rangeLength_eq, halike.face]
    refine ⟨by rw [walks_of_hands hhands], ⟨halike.face, halike.guards⟩,
      ⟨hcalm.pending, hcalm.unwinding⟩, walk k u, rfl, by simp [walk, hk], ?_, ?_⟩
    · simp only [walk, positionIn, Option.map_some, hk, hlength]
    · simp only [hands, Prod.mk.injEq] at hhands ⊢
      simp [hhands]

end Op

namespace World

variable {w : World}

/-- A handle that watches nothing or an alive object goes away; its variable is left empty. -/
theorem Reachable.drain_discardSoft_eq {p : SoftPlace} (h : w.Reachable) (hc : w.IsCalm)
    (hl : w.isLent (.soft p) = false) (hs : ∀ k, w.soft p = some k → w.isAlive k.record = true) :
    (w.discardSoft p).drain = (w.vacate p).letGo (w.soft p) := by
  have hu : w.discardSoft p = (w.vacate p).schedule [.dropSoft (w.soft p)] := by
    rw [discardSoft, hl, if_neg Bool.false_ne_true]
  have hreach : (w.discardSoft p).Reachable := h.reaches (.once (.discardSoft p))
  have hp : (w.vacate p).pending = [] := by cases p <;> exact hc.pending
  have hpending : (w.discardSoft p).pending = [.dropSoft (w.soft p)] := by
    rw [hu, schedule, hp]
    rfl
  have hface : (w.discardSoft p).face = w.face := by
    rw [hu]
    cases p <;> rfl
  rw [hreach.sound.drain_dropSoft hpending
    fun k hk => by rw [isAlive_eq, hface, ← isAlive_eq, hs k hk], hu, ← hp]
  rfl

theorem Reachable.drain_discardSoft {p : SoftPlace} (h : w.Reachable) (hc : w.IsCalm)
    (hl : w.isLent (.soft p) = false) (hs : ∀ k, w.soft p = some k → w.isAlive k.record = true) :
    w.Alike (w.discardSoft p).drain ∧ (w.discardSoft p).drain.IsCalm ∧
      (w.discardSoft p).drain.hands = (w.vacate p).hands := by
  have hleft (v : World) (s : Soft) :
      (v.letGo s).guards = v.guards ∧ (v.letGo s).pending = v.pending ∧
      (v.letGo s).unwinding = v.unwinding ∧ (v.letGo s).hands = v.hands := by
    cases s <;> exact ⟨rfl, rfl, rfl, rfl⟩
  obtain ⟨hguards, hpending, hunwinding, hhands⟩ := hleft (w.vacate p) (w.soft p)
  rw [h.drain_discardSoft_eq hc hl hs]
  refine ⟨⟨(face_letGo _).trans ?_, hguards.trans ?_⟩,
    ⟨hpending.trans ?_, hunwinding.trans ?_⟩, hhands⟩
  · cases p <;> rfl
  · cases p <;> rfl
  · cases p <;> exact hc.pending
  · cases p <;> exact hc.unwinding

end World

namespace Op

open World

variable {w : World}

theorem attains_dropSoft {p : SoftPlace} (h : w.Reachable) (hc : w.IsCalm)
    (hl : w.isLent (.soft p) = false) (hs : ∀ k, w.soft p = some k → w.isAlive k.record = true) :
    (dropSoft p).Attains w fun _ v => w.Alike v ∧ v.IsCalm ∧ v.hands = (w.vacate p).hands := by
  have hdrain := h.drain_discardSoft hc hl hs
  have hrun : (dropSoft p).run.run w = (.ok (), (w.discardSoft p).drain) := by
    have hq : (dropSoft p).run.run w = quiesce.run.run (w.discardSoft p) := rfl
    rw [hq, run_quiesce, hdrain.2.1.unwinding]
  exact .of_run hrun hdrain

end Op

end Custody

import Custody.Proofs.Attainment
import Custody.Proofs.Heap.Notices
import Custody.Proofs.Ownership
import Custody.Proofs.Writing

/-! Orphans. An owner that goes while guards are on its object leaves the object behind. All
observers are told at that moment, once and for all; the guards go on as before; and the
object is destroyed when the last handle of its record goes, whatever happens in between. -/

namespace Custody

namespace Holding

open Stake

/-- An object without an owner is taken out together with the last handle of its record. -/
theorem Step.handles_of_emptied {r : RecordId} {h k : Holding} (hk : Step r h k) (hs : Sound r h)
    {rec new : Record} (hr : h.record = some rec) (ha : rec.isAlive = false)
    (ho : rec.object.isSome = true) (hn : k.record = some new) (he : new.object = none) :
    new.handles = 0 := by
  cases hk with
  | rest =>
    obtain rfl := Option.some.inj (hr.symm.trans hn)
    simp [he] at ho
  | found => cases hr
  | demolish =>
    obtain rfl := Option.some.inj hr
    have halive := (Agrees.alive hs).1
    simp [ha] at halive
  | collapse hlast =>
    obtain rfl := Option.some.inj hn
    exact hlast
  | edit | register | probe | deregister | orphan | leave | retire | lend | redeem =>
    obtain rfl := Option.some.inj hr
    obtain rfl := Option.some.inj hn
    simp_all [Record.abandoned, Record.left, Record.retired]

end Holding

namespace World

variable {v w : World} {r : RecordId} {rec : Record} {a : Action} {rest : List Task}

/-- How many handles a record counts. -/
def handlesOf (w : World) (r : RecordId) : Nat := (w.records[r]?.map Record.handles).getD 0

theorem handlesOf_of_record (hr : w.records[r]? = some rec) : w.handlesOf r = rec.handles := by
  simp [handlesOf, hr]

/-! ### The owner goes -/

/-- What happens when the owner of `r` goes next, and guards are on the object. -/
structure Orphans (w : World) (r : RecordId) : Prop where
  /-- Nothing is destroyed, and no finalizer runs. -/
  begins : ∀ q, ¬ w.Begins .tick q
  log : w.tick.log = w.log
  objects : w.tick.object? = w.object?
  blocks : w.tick.block? = w.block?
  guards : w.tick.guards = w.guards
  /-- Every live observer is counted, and none is left. -/
  told : ∀ h, w.tick.invalidations h = w.invalidations h + w.notice r h
  hushed : w.tick.IsHushed r
  /-- The panic that this raises gives way to one that unwinds already. -/
  panics : w.unwinding = none → w.tick.unwinding = some (.fatal (.access .destroyedWhileBorrowed))
  unwinds : ∀ p, w.unwinding = some p → w.tick.unwinding = some p

theorem log_orphan (r : RecordId) : (w.orphan r).log = w.log := by
  unfold orphan invalidate
  split_ifs
  · rfl
  · split <;> rfl

theorem Sound.tick_orphan (h : w.Sound) (hp : w.pending = .dropOwner (some r) :: rest)
    (hg : w.IsGuarded r) :
    w.tick = ((({ w with pending := rest } : World).schedule [.forget r]).orphan r).raise
      (.fatal (.access .destroyedWhileBorrowed)) := by
  have hb : (({ w with pending := rest } : World).schedule [.forget r]).isBorrowed r = true :=
    (h.isBorrowed_iff r).mpr hg
  simp only [tick, hp, perform, dropOwner, hb, if_true]

theorem Sound.replaces_orphaned (h : w.Sound) (hp : w.pending = .dropOwner (some r) :: rest)
    (hg : w.IsGuarded r) : ∃ rec, w.records[r]? = some rec ∧ w.Replaces r rec.abandoned w.tick := by
  obtain ⟨rec, items, hr, -, horph⟩ := h.record_of_dropOwner hp
  rw [h.tick_orphan hp hg]
  have hrep := replaces_orphan
    (w := ({ w with pending := rest } : World).schedule [.forget r]) hr horph
  exact ⟨rec, hr, hrep.congr rfl (records_raise _)⟩

theorem Sound.pending_orphan (h : w.Sound) (hp : w.pending = .dropOwner (some r) :: rest)
    (hg : w.IsGuarded r) : w.tick.pending = .forget r :: rest := by
  rw [h.tick_orphan hp hg]
  exact ((keeps_orphan r).trans (keeps_raise _)).pending

theorem Replaces.object? {new : Record} (h : w.Replaces r new v) (hr : w.records[r]? = some rec)
    (ho : new.object = rec.object) : v.object? = w.object? := by
  funext q
  rw [World.object?, World.object?, h q]
  split_ifs with hq
  · subst hq
    simp [hr, ho]
  · rfl

theorem Replaces.block? {new : Record} (h : w.Replaces r new v) (hr : w.records[r]? = some rec)
    (hb : new.block = rec.block) : v.block? = w.block? := by
  funext q
  rw [World.block?, World.block?, h q]
  split_ifs with hq
  · subst hq
    simp [hr, hb]
  · rfl

theorem Sound.orphans (h : w.Sound) (hp : w.pending = .dropOwner (some r) :: rest)
    (hg : w.IsGuarded r) : w.Orphans r := by
  obtain ⟨rec, hr, hrep⟩ := h.replaces_orphaned hp hg
  have htick := h.tick_orphan hp hg
  have hpending := h.pending_orphan hp hg
  have hbook : w.tick.book = w.book := book_tick
  refine
    { begins := fun q hb => ?_
      log := ?_
      objects := hrep.object? hr rfl
      blocks := hrep.block? hr rfl
      guards := guards_of_book hbook
      told := fun k => ?_
      hushed := ⟨_, hrep.self, rec.isHushed_abandoned⟩
      panics := fun hu => ?_
      unwinds := fun p hu => unwinding_tick hu }
  · rw [Begins, Action.run, hpending, hp, List.count_cons, List.count_cons] at hb
    simp at hb
  · rw [htick, log_raise, log_orphan]
    rfl
  · rw [h.invalidations_dropOwner hp, if_pos ((h.isBorrowed_iff r).mpr hg)]
  · have hno :
        ((({ w with pending := rest } : World).schedule [.forget r]).orphan r).unwinding = none :=
      (unwinding_orphan r).trans hu
    rw [htick, raise, hno]
    rfl

/-! ### The object is left behind -/

/-- An allocation whose observers have all been told, at some later time. -/
structure Lingers (w : World) (r : RecordId) : Prop where
  /-- Handles to it lead nowhere, those that are made now included. -/
  gone : ∀ t, w.watched (some ⟨r, t⟩) = .error .gone
  refused : ∀ p t a, w.soft p = some ⟨r, t⟩ → w.lend (.soft p) a = (.error .gone, w)
  newcomers : ∀ rec t, w.records[r]? = some rec → rec.nextTicket = .ok (some t) →
    rec.enrol.slots.find? t = some .gone
  /-- What heaps count from now on comes of other allocations. -/
  counts : ∀ a h, (a.run w).invalidations h =
    w.invalidations h + (w.told? a).elim 0 fun q => w.notice q h
  silent : ∀ h, w.notice r h = 0
  /-- Guards go on reading and writing, and nobody else changes what they read. -/
  reads : ∀ g guard, w.guard? g = some guard → guard.record = r → w.object? r = some (w.guarded g)
  writes : ∀ g guard x, w.writable? g = some guard → guard.record = r → (w.put g x).guarded g =
    (w.guarded g).mapIdx fun i item => if guard.part.covers i then item.set x else item
  stays : ∀ a, (w.object? r).isSome = true →
    (a.run w).object? r = w.object? r ∨ w.Writes a r ∨ w.Begins a r
  /-- An object that is there has a handle, and is destroyed just when the last one goes. -/
  held : (w.object? r).isSome = true → 0 < w.handlesOf r
  ends : ∀ a, w.Begins a r ↔ (w.object? r).isSome = true ∧ (a.run w).handlesOf r = 0
  /-- The block is there as long as the object is, and then until its destruction is over. -/
  housed : (w.block? r).isSome = true ↔ (w.object? r).isSome = true ∨ .retire r ∈ w.pending
  released : ∀ a, w.Begins a r → (a.run w).object? r = none ∧ (a.run w).drain.block? r = none ∧
    ∀ v b, (a.run w).Reaches v → ¬ v.Begins b r

theorem IsHushed.isAlive (h : w.IsHushed r) : w.isAlive r = false := by
  obtain ⟨rec, hr, hq⟩ := h
  simp [World.isAlive, hr, hq.dead]

/-- The end of a destruction is pending just as long as the object is gone and its block is
not. -/
theorem Sound.block?_isSome_iff (h : w.Sound) (hr : w.records[r]? = some rec) :
    (w.block? r).isSome = true ↔ (w.object? r).isSome = true ∨ .retire r ∈ w.pending := by
  have hc := h.count_retire hr
  rw [block?_of_record hr, object?_of_record hr]
  cases ho : rec.object with
  | some items =>
    have hb := (h.agrees hr).housed (by simp [ho])
    simp [hb]
  | none =>
    rw [Record.isRetiring, ho] at hc
    rw [← List.count_pos_iff, hc]
    cases rec.block <;> simp

/-- Where nothing is pending, a block is there just as long as its object. -/
theorem Sound.block?_drain (h : w.Sound) (hr : w.records[r]? = some rec) (ho : rec.object = none) :
    w.drain.block? r = none := by
  have hd := h.reaches (reaches_drain w)
  obtain ⟨new, hnew, hlater⟩ := h.later (reaches_drain w) hr
  have hiff := hd.block?_isSome_iff hnew
  rw [pending_drain, object?_of_record hnew, hlater.empty ho] at hiff
  simpa using hiff

/-- A record that was told is forgotten by its observers, not by its guards. -/
theorem Sound.ends_iff (h : w.Reachable) (hq : w.IsHushed r) (a : Action) :
    w.Begins a r ↔ (w.object? r).isSome = true ∧ (a.run w).handlesOf r = 0 := by
  have hs := h.sound
  obtain ⟨rec, hr, hrec⟩ := hq
  obtain ⟨new, hnew, -⟩ := hs.later (.once a) hr
  rw [handlesOf_of_record hnew, object?_of_record hr]
  constructor
  · intro hb
    obtain ⟨items, -, hitems, -⟩ := hs.pending_begins hb
    obtain ⟨new', hnew', hret, -⟩ := hs.begins hb
    obtain rfl := Option.some.inj (hnew.symm.trans hnew')
    rw [object?_of_record hr] at hitems
    have ho : rec.object.isSome = true := by simp [hitems]
    exact ⟨ho, (step_run hs a r).handles_of_emptied (hs.holds r) hr hrec.dead ho hnew
      (isRetiring_iff.mp hret).1⟩
  · rintro ⟨ho, hzero⟩
    apply hs.begins_of_emptied hr ho
    by_contra hne
    rw [object?_of_record hnew] at hne
    have hpos := (h.reaches (.once a)).handles_pos hnew (Option.isSome_iff_ne_none.mpr hne)
    omega

/-- Whoever was told that the owner has gone is told so for good, while the object itself
waits for the last handle. -/
theorem Reachable.lingers (h : w.Reachable) (hq : w.IsHushed r) : w.Lingers r := by
  have hs := h.sound
  have hq' := hq
  obtain ⟨rec, hr, hrec⟩ := hq
  have hdead := IsHushed.isAlive hq'
  refine
    { gone := fun t => watched_of_dead hdead
      refused := fun p t a hp => ?_
      newcomers := fun rec' t hr' ht => ?_
      counts := hs.invalidations_run
      silent := notice_of_liveObservers (hs.liveObservers_of_isHushed hq')
      reads := fun g guard hg hgr => ?_
      writes := fun g guard x hg _ => guarded_put hg x
      stays := fun a ho => ?_
      held := fun ho => ?_
      ends := Sound.ends_iff h hq'
      housed := hs.block?_isSome_iff hr
      released := fun a hb => ?_ }
  · simp only [lend, reach, hp, watched_of_dead (k := ⟨r, t⟩) hdead]
  · obtain rfl := Option.some.inj (hr.symm.trans hr')
    exact (hs.agrees hr).enrolled.find?_enrol_of_dead hrec.dead ht
  · obtain ⟨items, b, hitems, -⟩ := hs.kept_of_guard (mem_guards hg)
    rw [← hgr, hitems, guarded, hg]
    dsimp only
    rw [← object?, hitems, Option.getD_some]
  · by_cases hw : w.Writes a r
    · exact .inr (.inl hw)
    · obtain hsame | hnone := stays_run ho hw
      · exact .inl hsame
      · rw [object?_of_record hr] at ho
        exact .inr (.inr (hs.begins_of_emptied hr ho hnone))
  · rw [object?_of_record hr] at ho
    rw [handlesOf_of_record hr]
    exact h.handles_pos hr ho
  · obtain ⟨new, hnew, hret, -, -⟩ := hs.begins hb
    have hnone := (isRetiring_iff.mp hret).1
    exact ⟨by rw [object?_of_record hnew, hnone], (hs.run a).block?_drain hnew hnone,
      fun v b hv => hs.not_begins_again hb hv b⟩

/-! ### A program that drops an owner -/

theorem discardOwner_of_not_lent {i : Nat} (hl : w.isLent (.owner i) = false) :
    w.discardOwner i = (w.setOwner i none).schedule [.dropOwner (w.owner i)] := by
  rw [discardOwner, if_neg (by simp [hl])]

/-- The panic comes out of the program that dropped the owner; if one was unwinding before,
nothing else comes out. -/
theorem Sound.run_dropOwner (h : w.Sound) {i : Nat} (hp : w.pending = []) (hi : w.owner i = some r)
    (hl : w.isLent (.owner i) = false) (hg : w.IsGuarded r) :
    ∃ v, (Op.dropOwner i).run.run w =
        (.error (.panicked (w.unwinding.getD (.fatal (.access .destroyedWhileBorrowed)))), v) ∧
      v.owner i = none ∧ v.guards = w.guards ∧ v.Sound ∧ v.IsHushed r ∧ w.Reaches v := by
  have hdiscard := discardOwner_of_not_lent hl
  have hu : (w.discardOwner i).Sound := h.run (.discardOwner i)
  have hup : (w.discardOwner i).pending = [.dropOwner (some r)] := by
    rw [hdiscard, hi, schedule]
    exact congrArg _ hp
  have hug : (w.discardOwner i).guards = w.guards := by rw [hdiscard]; rfl
  have huu : (w.discardOwner i).unwinding = w.unwinding := by rw [hdiscard]; rfl
  have hguarded : (w.discardOwner i).IsGuarded r := by
    rw [IsGuarded, hug]
    exact hg
  have horphans := hu.orphans hup hguarded
  have hunwinding : (w.discardOwner i).tick.unwinding =
      some (w.unwinding.getD (.fatal (.access .destroyedWhileBorrowed))) := by
    cases hw : w.unwinding with
    | none => exact horphans.panics (huu.trans hw)
    | some p => exact horphans.unwinds p (huu.trans hw)
  have hdrain := unwinding_drain hunwinding
  rw [drain_tick] at hdrain
  have htick := Reaches.once (w := w.discardOwner i) .tick
  have hreach := htick.trans (reaches_drain (w.discardOwner i).tick)
  rw [drain_tick] at hreach
  have hlater : (w.discardOwner i).tick.drain.IsHushed r :=
    (hu.run .tick).isHushed_later horphans.hushed (reaches_drain _)
  have hfinal : (Op.dropOwner i).run.run w = Op.quiesce.run.run (w.discardOwner i) := rfl
  refine ⟨(w.discardOwner i).drain, ?_, ?_, ?_, hu.reaches hreach, ?_, ?_⟩
  · rw [hfinal, Op.run_quiesce, hdrain]
  · rw [owner, owner?_congr hands_drain, ← owner, hdiscard]
    exact owner_setOwner_none i
  · rw [guards_of_book book_drain, hug]
  · rwa [drain_tick] at hlater
  · exact (Reaches.once (.discardOwner i)).trans hreach

/-- In every reachable world, in the midst of destruction too, an owner that goes while guards
are on its object destroys nothing. All live observers are told and counted, and a panic
begins unless one unwinds already. From then on, whatever the program does, no handle leads
to the object, nobody is told or counted again, and the guards read and write the object as
before, until the last handle of the record goes: then, and only then, the object is
destroyed and its block handed back. -/
theorem orphan_outlives_owner (h : w.Reachable) :
    (∀ r rest, w.pending = .dropOwner (some r) :: rest → w.IsGuarded r →
      w.Orphans r ∧ ∀ v, w.tick.Reaches v → v.Lingers r) ∧
    ∀ i r, w.pending = [] → w.owner i = some r → w.isLent (.owner i) = false → w.IsGuarded r →
      ∃ v, (Op.dropOwner i).run.run w =
          (.error (.panicked (w.unwinding.getD (.fatal (.access .destroyedWhileBorrowed)))), v) ∧
        v.owner i = none ∧ v.guards = w.guards ∧ v.Lingers r := by
  have hs := h.sound
  constructor
  · intro r rest hp hg
    have horphans := hs.orphans hp hg
    have htick := h.reaches (.once .tick)
    refine ⟨horphans, fun v hv => ?_⟩
    exact (htick.reaches hv).lingers (htick.sound.isHushed_later horphans.hushed hv)
  · intro i r hp hi hl hg
    obtain ⟨v, hrun, howner, hguards, -, hushed, hreach⟩ := hs.run_dropOwner hp hi hl hg
    exact ⟨v, hrun, howner, hguards, (h.reaches hreach).lingers hushed⟩

/-- A node with an observer through which it is borrowed, just before its owner goes. -/
def borrowedNode : World :=
  [.construct 0 ⟨.one, .node, .tracked⟩ (.single (.node 7 .plain)), .newSoft, .attach 0 (.soft 0),
    .lend (.soft (.soft 0)) .shared, .discardOwner 0].foldl Action.run (start defaultGrant)

theorem orphan_outlives_owner_borrowedNode :
    borrowedNode.tick.invalidations 0 = 1 ∧
      borrowedNode.tick.object? 0 = some [.node 7 .plain none none] ∧
      ∀ v, borrowedNode.tick.Reaches v → ∀ a,
        v.Begins a 0 ↔ (v.object? 0).isSome = true ∧ (a.run v).handlesOf 0 = 0 := by
  have hguard : borrowedNode.IsGuarded 0 :=
    ⟨(0, ⟨0, .shared, .soft (.soft 0), .whole⟩), by decide, rfl⟩
  obtain ⟨horphans, hlater⟩ :=
    (orphan_outlives_owner (w := borrowedNode) (reachable_foldl _ _)).1 0 [] (by decide) hguard
  refine ⟨?_, ?_, fun v hv => (hlater v hv).ends⟩
  · rw [horphans.told 0]
    decide
  · rw [horphans.objects]
    decide

end World

end Custody

import Custody.Proofs.Destruction
import Custody.Proofs.Quiescence
import Custody.Proofs.Registrations
import Custody.Proofs.Validity
import Custody.Proofs.Heap.Accounts
import Custody.Proofs.Heap.Detection
import Custody.Proofs.Heap.Notices

/-! The order of a destruction. The object leaves its record first, so that no handle leads to it
any more; then its elements are destroyed, and whatever their finalizers do, nothing else
about the allocation changes meanwhile: its observers stay registered, and its block
stays charged to its heap. At the end the observers are told, and then the block goes back. -/

namespace Custody

/-- A heap has taken back block `b`: one block fewer is live, and it is kept if both the caller and
the configuration ask for that. -/
structure Heap.TookBack (heap : Heap) (b : Block) (keep : Bool) (new : Heap) : Prop where
  live : new.stats.liveBlocks = heap.stats.liveBlocks - 1
  liveBytes : new.stats.liveBytes = heap.stats.liveBytes - b.size
  deallocations : new.stats.deallocations = heap.stats.deallocations + 1
  kept : keep = true → heap.config.keeps = true →
    new.quarantine = heap.quarantine.push (heap.prepare b) ∧
      new.stats.keptBlocks = heap.stats.keptBlocks + 1
  freed : (keep = false ∨ heap.config.keeps = false) →
    new.quarantine = heap.quarantine ∧ new.stats.keptBlocks = heap.stats.keptBlocks

theorem Heap.tookBack_release (heap : Heap) (b : Block) (keep : Bool) :
    heap.TookBack b keep (heap.release b keep) := by
  cases hk : keep && heap.config.keeps with
  | true =>
    have hnew : heap.release b keep = { heap with
        quarantine := heap.quarantine.push (heap.prepare b)
        stats := (heap.stats.released b.size).kept b.size } := if_pos hk
    rw [hnew]
    refine ⟨rfl, rfl, rfl, fun _ _ => ⟨rfl, rfl⟩, fun h => ?_⟩
    obtain ⟨hkeep, hkeeps⟩ := Bool.and_eq_true_iff.mp hk
    simp [hkeep, hkeeps] at h
  | false =>
    have hnew : heap.release b keep = { heap with stats := heap.stats.released b.size } :=
      if_neg (by simp [hk])
    rw [hnew]
    refine ⟨rfl, rfl, rfl, fun h h' => ?_, fun _ => ⟨rfl, rfl⟩⟩
    simp [h, h'] at hk

namespace World

variable {v w : World} {a : Action} {r : RecordId} {rec : Record} {b : Block} {rest : List Task}

/-! ### While the object is destroyed -/

/-- An allocation at any moment of the destruction of its object. -/
structure Perishes (w : World) (r : RecordId) : Prop where
  /-- No handle leads to it, and it can be neither read nor borrowed. -/
  gone : ∀ t, w.watched (some ⟨r, t⟩) = .error .gone ∧ w.isValid (some ⟨r, t⟩) = false ∧
    w.softAddress? (some ⟨r, t⟩) = none
  refused : ∀ p t x, w.soft p = some ⟨r, t⟩ →
    w.inspect (.soft p) x = .error .gone ∧ w.lend (.soft p) x = (.error .gone, w)
  /-- Who registers now is told at once, and is not counted. -/
  newcomers : ∀ k v, w.watch r = (.ok (some k), v) → k.record = r ∧ v.isValid (some k) = false ∧
    (∀ rec t, k.ticket = some t → v.records[r]? = some rec → rec.slots.find? t = some .gone) ∧
    v.invalidations = w.invalidations
  /-- So it is for a finalizer that looks through a handle and copies it. -/
  probed : ∀ t, w.peekNumber (some ⟨r, t⟩) = .error .gone ∧
    ((w.copyBriefly (some ⟨r, t⟩)).1 = none ∨ (w.copyBriefly (some ⟨r, t⟩)).1 = some (false, false))
  /-- All handles that exist are registered still. -/
  observed : ∀ rec, w.records[r]? = some rec → rec.kind.mode = .tracked →
    w.observers (some r) = (w.observersOf r).card
  /-- The block is charged to its heap, and is in no quarantine. -/
  block : ∃ rec b, w.records[r]? = some rec ∧ rec.block = some b ∧
    ⟨rec.heap, b.extent⟩ ∈ w.chargedTo rec.heap ∧
    ∀ heap ∈ w.heaps, (∀ z ∈ heap.quarantine.blocks, b.Apart z) ∧
      ∀ x, b.covers x = true → heap.quarantine.isClear x = true
  /-- If all blocks have gone back to the heaps that they came from, a heap counts just the blocks
  that are charged to it as live. -/
  live : ∀ grant, (start grant).ReachesTidily w → ∀ (h : HeapId) (heap : Heap),
    w.heaps[h]? = some heap → heap.stats.liveBlocks = (w.chargedTo h).card

theorem Sound.watch_of_dead (h : w.Sound) (hd : w.isAlive r = false) {k : Watch}
    (hw : w.watch r = (.ok (some k), v)) : k.record = r ∧ v.isValid (some k) = false ∧
      ∀ rec t, k.ticket = some t → v.records[r]? = some rec → rec.slots.find? t = some .gone := by
  obtain (hw' | ⟨e, hw'⟩) | ⟨t, u, hw', hreg⟩ := watch_cases (w := w) r
  · cases hw'.symm.trans hw
  · cases hw'.symm.trans hw
  · obtain ⟨hk, rfl⟩ := Prod.mk.inj (hw'.symm.trans hw)
    obtain rfl := Option.some.inj (Except.ok.inj hk)
    obtain ⟨rec, hr, ht, hrep⟩ := hreg.found
    have hdead : rec.isAlive = false := by simpa [isAlive, hr] using hd
    have hnew : u.isAlive r = false := by
      rw [isAlive, hrep.self]
      exact rec.isAlive_enrol.trans hdead
    refine ⟨rfl, by rw [isValid, watched_of_dead (k := ⟨r, t⟩) hnew]; rfl, ?_⟩
    rintro new t rfl hu
    obtain rfl := Option.some.inj (hrep.self.symm.trans hu)
    exact (h.agrees hr).enrolled.find?_enrol_of_dead hdead ht

theorem Reachable.perishes (h : w.Reachable) (hm : .retire r ∈ w.pending)
    (hr : w.records[r]? = some rec) : w.Perishes r := by
  have hs := h.sound
  obtain ⟨hnone, hblock⟩ := isRetiring_iff.mp (hs.isRetiring_of_mem hr hm)
  obtain ⟨b, hb⟩ := Option.isSome_iff_exists.mp hblock
  have hdead : w.isAlive r = false := by simp [isAlive, hr, Record.isAlive, hnone]
  have hgone (t : Option Ticket) : w.watched (some ⟨r, t⟩) = .error .gone := watched_of_dead hdead
  have hcharge := mem_charges_of_record hr hb
  refine
    { gone := fun t => ⟨hgone t, by rw [isValid, hgone]; rfl, by rw [softAddress?, hgone]⟩
      refused := fun p t x hp => ?_
      newcomers := fun k v hw => ?_
      probed := fun t => ⟨by rw [peekNumber, hgone]; rfl, ?_⟩
      live := fun grant ht => ht.accounted.blocks
      observed := fun rec hr hmode => (hs.tracked_observers hr hmode).2.2
      block := ⟨rec, b, hr, hb, Multiset.mem_filter.mpr ⟨hcharge, rfl⟩,
          fun heap hheap => ⟨fun z hz =>
        h.laid.apart_kept hr hb hheap hz, fun x hx => ?_⟩⟩ }
  · have hreach : w.reach (.soft p) = .error .gone := by rw [reach, hp, hgone]
    exact ⟨by rw [inspect, hreach]; rfl, by rw [lend, hreach]⟩
  · obtain ⟨hk, hv, hfind⟩ := hs.watch_of_dead hdead hw
    have hcount := invalidations_watch (w := w) r
    rw [hw] at hcount
    exact ⟨hk, hv, hfind, hcount⟩
  · have hcopy := hs.copyBriefly_fst rfl ⟨r, t⟩
    rwa [hdead] at hcopy
  · obtain ⟨hlow, hhigh⟩ := Block.covers_iff.mp hx
    exact h.isClear hcharge hheap hlow hhigh

/-! ### The start -/

theorem not_begins (ts : List Task) {base : List Task} (hp : (a.run w).pending = ts ++ base)
    (hbase : base.count (.retire r) ≤ w.pending.count (.retire r)) (ht : .retire r ∉ ts) :
    ¬ w.Begins a r := by
  rw [Begins, hp, List.count_append, List.count_eq_zero.mpr ht]
  omega

theorem not_begins_construct (h : HeapId) (k : Kind) (p : Plan) :
    ¬ w.Begins (.construct h k p) r := by
  have hpending : ∃ ts, .retire r ∉ ts ∧ (w.construct h k p).2.pending = ts ++ w.pending := by
    rw [construct_eq]
    split
    · exact ⟨[], by simp, rfl⟩
    · split
      · exact ⟨[], by simp, rfl⟩
      · rename_i hv
        obtain ⟨arena, -, rfl⟩ := allocate_eq_ok hv
        split
        · exact ⟨_, by simp, (keeps_raise _).pending⟩
        · exact ⟨[], by simp, rfl⟩
  obtain ⟨ts, ht, hp⟩ := hpending
  exact not_begins ts hp le_rfl ht

theorem heaps_begins_tick (hb : w.Begins .tick r) : w.tick.heaps = w.heaps := by
  cases hp : w.pending with
  | nil => rw [tick, hp]
  | cons t rest =>
    have hrest : rest.count (.retire r) ≤ w.pending.count (.retire r) := by
      rw [hp]
      exact List.count_le_count_cons
    have htick : w.tick = ({ w with pending := rest } : World).perform t := by rw [tick, hp]
    have hno (ts : List Task) (ht : .retire r ∉ ts)
        (hts : (({ w with pending := rest } : World).perform t).pending = ts ++ rest) :
        w.tick.heaps = w.heaps :=
      absurd hb (not_begins ts (by rw [Action.run, htick, hts]) hrest ht)
    cases t with
    | dropOwner o =>
      cases o with
      | none => rw [htick]; rfl
      | some q =>
        cases hq : (({ w with pending := rest } : World).schedule [.forget q]).isBorrowed q with
        | true =>
          refine hno [.forget q] (by simp) ?_
          simp only [perform, dropOwner, hq, if_true]
          exact ((keeps_orphan q).trans (keeps_raise _)).pending
        | false =>
          simp only [htick, perform, dropOwner, hq]
          exact heaps_demolish q
    | dropSoft s =>
      rw [htick]
      cases s <;> rfl
    | dropItem i =>
      cases i with
      | node value f next prev =>
        refine hno [.dropOwner next, .dropSoft prev] (by simp) ?_
        simp only [perform, dropItem, schedule, (keeps_finalize value f prev).pending]
      | unit | int | byte | bucket | entry => rw [htick]; rfl
    | retire q => exact hno [] (by simp) ((keeps_invalidate q).trans (keeps_returnBlock q)).pending
    | forget q =>
      rw [htick]
      simp only [perform, forget]
      split_ifs
      · exact heaps_demolish q
      · rfl
    | abandon h b => exact hno [] (by simp) rfl

/-- Taking an object out of its record asks nothing of any heap. -/
theorem heaps_begins (hb : w.Begins a r) : (a.run w).heaps = w.heaps := by
  cases a with
  | tick => exact heaps_begins_tick hb
  | construct h k p => exact absurd hb (not_begins_construct h k p)
  | resetOwner | resetLink => exact heaps_run_of_resets rfl
  | discardOwner | discardSoft | scrap | scrapNode | narrow => exact heaps_run_of_variables rfl
  | lend | duplicate | endBorrow => exact heaps_run_of_borrows rfl
  | _ =>
    refine absurd hb (not_begins [] (keeps_run ?_).pending le_rfl (by simp))
    trivial

/-! ### The end -/

/-- The world in which the observers of `r` have been told, at the end of its destruction, and the
block has not gone back. -/
def announced (w : World) (r : RecordId) : World :=
  ({ w with pending := w.pending.tail } : World).invalidate r

/-- What the end of a destruction does, step by step. -/
structure Concludes (w : World) (r : RecordId) (rec : Record) (b : Block) : Prop where
  /-- First every observer is told and counted, -/
  hushed : (w.announced r).liveObservers r = 0
  counted : ∀ h, (w.announced r).invalidations h = w.invalidations h + w.notice r h
  /-- while the block is where it was. -/
  block : (w.announced r).block? r = some b
  charges : (w.announced r).charges = w.charges
  kept : ∀ (h : HeapId) (heap : Heap), w.heaps[h]? = some heap →
    ∃ new, (w.announced r).heaps[h]? = some new ∧ new.config = heap.config ∧
      new.quarantine = heap.quarantine ∧ new.stats.liveBlocks = heap.stats.liveBlocks
  /-- Then the block goes back to its heap, and nobody is told. -/
  last : w.tick = (w.announced r).returnBlock r
  returned : w.tick.block? r = none
  settled : w.charges = {⟨rec.heap, b.extent⟩} + w.tick.charges
  takesBack : ∀ heap, (w.announced r).heaps[rec.heap]? = some heap →
    ∃ new, w.tick.heaps[rec.heap]? = some new ∧ heap.TookBack b rec.kind.mode.isTracked new
  silent : w.tick.invalidations = (w.announced r).invalidations

theorem kept_invalidate {h : HeapId} {heap : Heap} (hh : w.heaps[h]? = some heap) (r : RecordId) :
    ∃ new, (w.invalidate r).heaps[h]? = some new ∧ new.config = heap.config ∧
      new.quarantine = heap.quarantine ∧ new.stats.liveBlocks = heap.stats.liveBlocks := by
  unfold invalidate
  split
  · exact ⟨heap, hh, rfl, rfl, rfl⟩
  · simp only [modifyHeap, modifyRecord, Array.getElem?_modify]
    split_ifs
    · rw [hh]
      exact ⟨_, rfl, rfl, rfl, rfl⟩
    · exact ⟨heap, hh, rfl, rfl, rfl⟩

theorem Sound.concludes (h : w.Sound) (hp : w.pending = .retire r :: rest)
    (hr : w.records[r]? = some rec) (hb : rec.block = some b) : w.Concludes r rec b := by
  have htail : w.announced r = ({ w with pending := rest } : World).invalidate r := by
    rw [announced, hp, List.tail_cons]
  have hself : (w.announced r).records[r]? = some { rec with slots := rec.slots.dismissAll.2 } := by
    rw [htail]
    exact (replaces_invalidate (w := { w with pending := rest }) hr).self
  have htick : w.tick = (w.announced r).returnBlock r := by
    rw [htail, tick, hp]
    rfl
  have hcharges : (w.announced r).charges = w.charges := by
    rw [htail]
    exact ((stills_pop hp rfl).trans (stills_invalidate r)).charges
  have hback := @takesBack_returnBlock True (w.announced r) b r _ hself hb
  refine
    { hushed := ?_
      counted := fun k => ?_
      block := by rw [block?_of_record hself, hb]
      charges := hcharges
      kept := fun k heap hk => htail ▸ kept_invalidate (w := { w with pending := rest }) hk r
      last := htick
      returned := ?_
      settled := ?_
      takesBack :=
        fun heap hheap => ⟨heap.release b rec.kind.mode.isTracked, ?_, heap.tookBack_release b _⟩
      silent := by rw [htick, invalidations_returnBlock] }
  · rw [liveObservers_of_record hself]
    exact (h.agrees hr).enrolled.slots.dismissAll_twice
  · rw [htail, invalidations_invalidate]
    rfl
  · rw [htick, block?_of_record (replaces_returnBlock hself).self]
  · obtain ⟨owner, howner, hsettled⟩ := hback.charges
    obtain rfl := howner trivial
    rw [← hcharges, htick, hsettled]
  · rw [htick, hback.heaps, Array.getElem?_modify, if_pos rfl, hheap, Option.map_some, Heap.obey]

/-- A destruction goes on, or it has come to its end. -/
theorem Sound.concluded {todo : List Task} (h : w.Sound) (hr : w.records[r]? = some rec)
    (hp : w.pending = todo ++ .retire r :: rest) (hv : w.Reaches v) :
    (∃ todo, v.pending = todo ++ .retire r :: rest) ∨
      ∃ u, w.Reaches u ∧ u.pending = .retire r :: rest ∧ u.tick.Reaches v := by
  induction hv with
  | refl => exact .inl ⟨todo, hp⟩
  | @step u a hu ih =>
    obtain ⟨todo, hu'⟩ | ⟨x, hx, hxp, hxu⟩ := ih
    · have hus := h.reaches hu
      obtain ⟨mid, hmid, -⟩ := h.later hu hr
      obtain hnone | hgoes := hus.underway_run a hmid hu'
      · have hblock : (u.block? r).isSome = true := (h.underway hr hp hu).mpr ⟨todo, hu'⟩
        obtain ⟨-, -, -, rfl, below, hbelow, hnot⟩ := hus.handsBack ⟨hblock, hnone⟩
        -- the end is first, and it is there once
        cases todo with
        | nil => exact .inr ⟨u, hu, hu', .refl⟩
        | cons t todo =>
          rw [hbelow] at hu'
          obtain ⟨-, rfl⟩ := List.cons.inj hu'
          simp at hnot
      · exact .inl hgoes
    · exact .inr ⟨x, hx, hxp, .step a hxu⟩

/-- The destruction of an object that action `a` starts: `items` are destroyed, then it ends, and
then `rest` is pending. -/
structure TearsDown (w : World) (a : Action) (r : RecordId) (items : List Item) (rest : List Task) :
    Prop where
  found : w.object? r = some items
  /-- The object is out of its record at once, and no heap is asked for anything. -/
  object : (a.run w).object? r = none
  heaps : (a.run w).heaps = w.heaps
  pending : (a.run w).pending = items.map .dropItem ++ .retire r :: rest
  /-- Whatever is done meanwhile, its end is pending until it is done. -/
  ends : ∀ v, (a.run w).Reaches v → (∃ todo, v.pending = todo ++ .retire r :: rest) ∨
    ∃ u, (a.run w).Reaches u ∧ u.pending = .retire r :: rest ∧ u.tick.Reaches v
  meanwhile : ∀ v todo, (a.run w).Reaches v → v.pending = todo ++ .retire r :: rest → v.Perishes r
  concludes : ∀ v, (a.run w).Reaches v → v.pending = .retire r :: rest →
    ∃ rec b, v.records[r]? = some rec ∧ rec.block = some b ∧ v.Concludes r rec b
  /-- It comes to that. -/
  returned : (a.run w).drain.block? r = none

/-- The destruction of an object, whatever starts it, in every reachable world. The object is out
of its record at once, and no heap is asked for anything. Until all tasks that this brings are done,
and whatever else is done meanwhile, no handle leads to the object, new ones are told so, all stay
registered, and the block stays charged to its heap and out of all quarantines. Only
then are the observers told and counted, and after that the block goes back to its heap. It always
comes to that. -/
theorem teardown_ordered (h : w.Reachable) (hb : w.Begins a r) :
    ∃ items rest, w.TearsDown a r items rest := by
  have hs := h.sound
  have hrun := hs.run a
  obtain ⟨items, rest, ho, hp⟩ := hs.pending_begins hb
  obtain ⟨new, hnew, hret, -, -⟩ := hs.begins hb
  have hnone := (isRetiring_iff.mp hret).1
  refine ⟨items, rest,
    { found := ho
      object := by rw [object?_of_record hnew, hnone]
      heaps := heaps_begins hb
      pending := hp
      ends := fun v hv => hrun.concluded hnew hp hv
      meanwhile := fun v todo hv hvp => ?_
      concludes := fun v hv hvp => ?_
      returned := ?_ }⟩
  · obtain ⟨rec, hr, -⟩ := hrun.later hv hnew
    exact ((h.reaches (.once a)).reaches hv).perishes (by simp [hvp]) hr
  · have hvs := hrun.reaches hv
    obtain ⟨rec, hr, -⟩ := hrun.later hv hnew
    obtain ⟨b, hblock⟩ := Option.isSome_iff_exists.mp
      (isRetiring_iff.mp (hvs.isRetiring_of_mem hr (by simp [hvp]))).2
    exact ⟨rec, b, hr, hblock, hvs.concludes hvp hr hblock⟩
  · have hdone := hrun.underway hnew hp (reaches_drain (a.run w))
    rw [pending_drain] at hdone
    simpa using hdone

/-- Two nodes that are observed, the first owns the second, in the midst of the first one's
destruction. -/
def nestedNodes : World :=
  [.construct 0 ⟨.one, .node, .tracked⟩ (.single (.node 7 .plain)),
    .construct 0 ⟨.one, .node, .tracked⟩ (.single (.node 8 .plain)), .newSoft,
    .attach 0 (.soft 0), .newSoft,
    .attach 1 (.soft 1), .lend (.owner 0) .exclusive, .exchangeLink 0 0 1, .endBorrow 0,
    .discardOwner 0, .tick, .tick].foldl Action.run (start defaultGrant)

/-- The second one is destroyed within the destruction of the first. -/
theorem teardown_nestedNodes :
    nestedNodes.Begins .tick 1 ∧ nestedNodes.tick.Perishes 1 ∧
      ∃ rec b, nestedNodes.tick.tick.tick.tick.Concludes 1 rec b := by
  have hbegins : nestedNodes.Begins .tick 1 := by
    unfold Begins
    decide
  have h : nestedNodes.Reachable := reachable_foldl _ _
  obtain ⟨items, rest, htears⟩ := teardown_ordered h hbegins
  have hitems : nestedNodes.object? 1 = some [.node 8 .plain none none] := by decide
  obtain rfl := Option.some.inj (htears.found.symm.trans hitems)
  have hpending :
      nestedNodes.tick.pending = [.dropItem (.node 8 .plain none none), .retire 1, .forget 1,
      .dropSoft none, .retire 0, .forget 0] := by decide
  obtain rfl : rest = [.forget 1, .dropSoft none, .retire 0, .forget 0] := by
    have hp := hpending.symm.trans htears.pending
    simpa using hp.symm
  have hreach := reaches_foldl nestedNodes.tick [.tick, .tick, .tick]
  obtain ⟨rec, b, -, -, hconcludes⟩ := htears.concludes _ hreach (by decide)
  exact ⟨hbegins, htears.meanwhile _ [.dropItem (.node 8 .plain none none)] .refl hpending, rec, b,
    hconcludes⟩

end World

end Custody

import Custody.Proofs.Ledger.Actions
import Custody.Proofs.Ledger.Places

/-! Observing handles are sound: one that exists is valid exactly as long as some owner
holds what it watches, and an allocation that is dead stays dead. -/

namespace Custody

open Stake

namespace World

variable {w v : World} {r : RecordId} {rec : Record} {k : Watch}

/-! ### What a handle sees -/

/-- While the object is alive, the ticket of every observing handle is live. -/
theorem Sound.vouches (h : w.Sound) (hk : .watches k ∈ w.stakes)
    (hr : w.records[k.record]? = some rec) (ha : rec.isAlive = true) :
    rec.vouches k.ticket = true := by
  have he := (h.agrees hr).enrolled
  have hmem : k.ticket ∈ registrations (w.stakesIn k.record) :=
    mem_registrations.mpr ⟨k.record, mem_stakesIn.mpr ⟨hk, rfl⟩⟩
  cases ht : k.ticket with
  | none => rfl
  | some t =>
    rw [ht] at hmem
    cases hm : rec.kind.mode.isTracked with
    | false => cases (he.untracked hm).2 _ hmem
    | true =>
      rw [he.tracked hm] at hmem
      have hmem : t ∈ rec.slots.tickets := by simpa using hmem
      obtain ⟨s, hs⟩ := Option.isSome_iff_exists.mp (he.slots.mem_tickets.mp hmem)
      simp [Record.vouches, SlotTable.isLive, hs, he.live ha t s hs]

theorem isAlive_iff :
    w.isAlive r = true ↔ ∃ rec, w.records[r]? = some rec ∧ rec.isAlive = true := by
  cases hr : w.records[r]? <;> simp [isAlive, hr]

theorem watched_of_dead (ha : w.isAlive k.record = false) : w.watched (some k) = .error .gone := by
  simp only [watched]
  cases hr : w.records[k.record]? with
  | none => rfl
  | some rec =>
    have hrec : rec.isAlive = false := by simpa [isAlive, hr] using ha
    simp [hrec]

theorem Sound.watched_of_alive (h : w.Sound) (hk : .watches k ∈ w.stakes)
    (ha : w.isAlive k.record = true) : w.watched (some k) = .ok k.record := by
  obtain ⟨rec, hr, hrec⟩ := isAlive_iff.mp ha
  simp [watched, hr, hrec, h.vouches hk hr hrec]

theorem Sound.isValid_eq (h : w.Sound) (hk : .watches k ∈ w.stakes) :
    w.isValid (some k) = w.isAlive k.record := by
  cases ha : w.isAlive k.record with
  | false => rw [isValid, watched_of_dead ha]; rfl
  | true => rw [isValid, h.watched_of_alive hk ha]; rfl

theorem Sound.watched_eq_gone_iff (h : w.Sound) (hk : .watches k ∈ w.stakes) :
    w.watched (some k) = .error .gone ↔ w.isAlive k.record = false := by
  cases ha : w.isAlive k.record with
  | false => simp [watched_of_dead ha]
  | true => simp [h.watched_of_alive hk ha]

/-- An object that is there has an address. -/
theorem Sound.softAddress?_isSome (h : w.Sound) (hk : .watches k ∈ w.stakes) :
    (w.softAddress? (some k)).isSome = w.isAlive k.record := by
  cases ha : w.isAlive k.record with
  | false => rw [softAddress?, watched_of_dead ha]; rfl
  | true =>
    obtain ⟨rec, hr, hrec⟩ := isAlive_iff.mp ha
    have ho : rec.object.isSome = true := (Bool.and_eq_true_iff.mp hrec).2
    obtain ⟨b, hb⟩ := Option.isSome_iff_exists.mp ((h.agrees hr).housed ho)
    simp [softAddress?, h.watched_of_alive hk ha, hr, Record.address?, ho, hb]

/-- A borrow that is refused is refused for another borrow. -/
theorem take_ne_gone (b : Borrow) (a : Access) : b.take a ≠ .error .gone := by
  cases a with
  | shared => cases b <;> simp [Borrow.take, Borrow.share]
  | exclusive =>
    cases b with
    | readers n => cases n <;> simp [Borrow.take, Borrow.claim]
    | writer => simp [Borrow.take, Borrow.claim]

theorem alive_of_isAlive (ha : rec.isAlive = true) : ∃ items, rec.alive = .ok items := by
  obtain ⟨ho, hobj⟩ : rec.orphaned = false ∧ rec.object.isSome = true := by
    simpa [Record.isAlive] using ha
  obtain ⟨items, hitems⟩ := Option.isSome_iff_exists.mp hobj
  exact ⟨items, by simp [Record.alive, ho, hitems]⟩

/-- Reading through a handle answers that the object is gone only if it is. -/
theorem Sound.read_eq_gone_iff (h : w.Sound) (hk : .watches k ∈ w.stakes) (a : Access) :
    (w.watched (some k) >>= fun r => w.open? r a) = .error .gone ↔ w.isAlive k.record = false := by
  cases ha : w.isAlive k.record with
  | false => simp [watched_of_dead ha, bind, Except.bind]
  | true =>
    obtain ⟨rec, hr, hrec⟩ := isAlive_iff.mp ha
    obtain ⟨items, hitems⟩ := alive_of_isAlive hrec
    have hne : w.open? k.record a ≠ .error .gone := by
      have ht := take_ne_gone rec.borrow a
      simp only [open?, hr, Record.open?, hitems, bind, Except.bind]
      cases hb : rec.borrow.take a with
      | error e => simpa [hb] using ht
      | ok b => simp [pure, Except.pure]
    simpa [h.watched_of_alive hk ha, bind, Except.bind] using hne

/-- Borrowing through a handle answers that the object is gone only if it is. -/
theorem Sound.lend_eq_gone_iff (h : w.Sound) (hk : .watches k ∈ w.stakes) {p : SoftPlace}
    (hp : w.soft p = some k) (a : Access) :
    (w.lend (.soft p) a).1 = .error .gone ↔ w.isAlive k.record = false := by
  cases ha : w.isAlive k.record with
  | false => simp [lend, reach, hp, watched_of_dead ha]
  | true =>
    obtain ⟨rec, hr, hrec⟩ := isAlive_iff.mp ha
    obtain ⟨items, hitems⟩ := alive_of_isAlive hrec
    have ht := take_ne_gone rec.borrow a
    simp only [lend, reach, hp, h.watched_of_alive hk ha, hr, hitems]
    cases hb : rec.borrow.take a with
    | error e => simpa [hb] using ht
    | ok b => simp

/-! ### What a finalizer sees -/

theorem watched_congr (h : v.records = w.records) (s : Soft) : v.watched s = w.watched s := by
  cases s with
  | none => rfl
  | some k => simp only [watched, h]

theorem isValid_congr (h : v.records = w.records) (s : Soft) : v.isValid s = w.isValid s := by
  rw [isValid, isValid, watched_congr h]

theorem isAlive_congr (h : v.records = w.records) (r : RecordId) : v.isAlive r = w.isAlive r := by
  rw [isAlive, isAlive, h]

/-- A ticket that was just given is as live as the object. -/
theorem vouches_enrol (hs : rec.slots.Sound) {t : Option Ticket} (ht : rec.nextTicket = .ok t)
    (ha : rec.isAlive = true) : rec.enrol.vouches t = true := by
  unfold Record.nextTicket at ht
  split_ifs at ht with hm
  · cases hn : rec.slots.nextTicket with
    | error e => simp [hn, Except.map] at ht
    | ok j =>
      obtain rfl : some j = t := by simpa [hn, Except.map] using ht
      have he : rec.enrol.slots = rec.slots.enrol .live := by
        simp [Record.enrol, hm, Record.standing, ha]
      simp [Record.vouches, SlotTable.isLive, he, hs.find?_enrol hn]
  · obtain rfl : none = t := Except.ok.inj ht
    rfl

/-- A copy that a finalizer makes of a handle is not null, and is as valid as the object
is alive. -/
theorem Sound.copyBriefly_fst (h : w.Sound) (hr : v.records = w.records) (k : Watch) :
    (v.copyBriefly (some k)).1 = none ∨
      (v.copyBriefly (some k)).1 = some (false, w.isAlive k.record) := by
  cases hrec : v.records[k.record]? with
  | none => exact .inl (by simp only [copyBriefly, hrec])
  | some rec =>
    cases ht : rec.nextTicket with
    | error e => exact .inl (by simp only [copyBriefly, hrec, ht])
    | ok t =>
      have hself := (replaces_modifyRecord hrec Record.enrol).self
      have hw : w.records[k.record]? = some rec := by rw [← hr, hrec]
      have hal : w.isAlive k.record = rec.isAlive := by simp [isAlive, hw]
      have hv := vouches_enrol (h.agrees hw).enrolled.slots ht
      refine .inr ?_
      simp only [copyBriefly, hrec, ht, isValid, watched, hself, Record.isAlive_enrol, hal]
      cases ha : rec.isAlive with
      | false => simp [Except.isOk, Except.toBool]
      | true => simp [hv ha, Except.isOk, Except.toBool]

theorem log_raise (p : Panic) : (w.raise p).log = w.log := by
  unfold raise
  split_ifs <;> rfl

theorem Sound.isAlive_of_stakes (h : w.Sound) (hv : v.Sound) (hs : v.stakes = w.stakes)
    (r : RecordId) : v.isAlive r = w.isAlive r := by
  rw [Bool.eq_iff_iff, ← h.owns_iff, ← hv.owns_iff, hs]

theorem stakes_tick_dropItem {i : Item} {rest : List Task} (hp : w.pending = .dropItem i :: rest) :
    w.tick.stakes = w.stakes := by
  rw [stakes_pop hp, ofTask]
  simp only [tick, hp]
  exact stakes_dropItem i

/-- What a finalizer reports of the handle in its node: the handle and a copy of it are
valid just if the object is alive. -/
theorem Sound.probed (h : w.Sound) {value : Int64} {f : Finalizer} {next : Owner} {rest : List Task}
    (hp : w.pending = .dropItem (.node value f next (some k)) :: rest) (hf : f.probes = true) :
    ∃ seen copy before, w.tick.log = .probed value seen (w.isAlive k.record) copy :: before ∧
      (copy = none ∨ copy = some (false, w.isAlive k.record)) := by
  have hst := stakes_tick_dropItem hp
  have ht : w.tick.Sound := h.run .tick
  have hk : .watches k ∈ w.tick.stakes := by
    rw [hst, stakes_pop hp]
    simp [ofTask, ofItem, Item.back]
  have hvalid : w.tick.isValid (some k) = w.isAlive k.record := by
    rw [ht.isValid_eq hk, h.isAlive_of_stakes ht hst]
  -- the world in which the finalizer looks, and the one after its copy has gone
  obtain ⟨u, hu⟩ : ∃ u : World, u = { w with pending := rest, log := .dropped value :: w.log } :=
    ⟨_, rfl⟩
  have hcopy := h.copyBriefly_fst (v := u) (by rw [hu]) k
  have hlog : w.tick.log = .probed value (u.peekNumber (some k))
      ((u.copyBriefly (some k)).2.isValid (some k)) (u.copyBriefly (some k)).1 ::
        (u.copyBriefly (some k)).2.log := by
    simp only [tick, hp, perform, dropItem, finalize, hf, if_true, ← hu]
    split_ifs
    · exact log_raise _
    · rfl
  have hrec : w.tick.records = (u.copyBriefly (some k)).2.records := by
    simp only [tick, hp, perform, dropItem, finalize, hf, if_true, ← hu]
    split_ifs
    · exact records_raise _
    · rfl
  rw [isValid_congr hrec.symm, hvalid] at hlog
  exact ⟨_, _, _, hlog, hcopy⟩

/-! ### Handles that come and go -/

/-- Whether an action does no more than register observing handles, move them, or let
them go. -/
def Observes (w : World) : Action → Prop
  | .newSoft | .newScan .. | .newWalk .. | .attach .. | .swapSofts .. | .exchangeBack ..
  | .discardSoft _ => True
  | .tick => ∃ rest, (∃ s, w.pending = .dropSoft s :: rest) ∨ ∃ r, w.pending = .forget r :: rest
  | _ => False

/-- Some such actions, one after the other, lead from `w` to `v`. -/
inductive ReachesObserving (w : World) : World → Prop where
  | refl : ReachesObserving w w
  | step {v : World} {a : Action} :
    ReachesObserving w v → v.Observes a → ReachesObserving w (a.run v)

theorem ReachesObserving.reaches (h : w.ReachesObserving v) : w.Reaches v := by
  induction h with
  | refl => exact .refl
  | step _ _ ih => exact .step _ ih

theorem Replaces.isAlive {new : Record} (h : w.Replaces r new v) (hr : w.records[r]? = some rec)
    (ha : new.isAlive = rec.isAlive) (q : RecordId) : v.isAlive q = w.isAlive q := by
  simp only [World.isAlive, h q]
  split_ifs with hq
  · subst hq
    simp [hr, ha]
  · rfl

theorem isAlive_modifyRecord {f : Record → Record} (hf : ∀ rec, (f rec).isAlive = rec.isAlive)
    (r q : RecordId) : (w.modifyRecord r f).isAlive q = w.isAlive q := by
  simp only [isAlive, modifyRecord, Array.getElem?_modify]
  split_ifs
  · cases w.records[q]? <;> simp [hf]
  · rfl

theorem Edits.isAlive (h : w.Edits v) (q : RecordId) : v.isAlive q = w.isAlive q := by
  obtain hq | ⟨rec, f, hrec, -, hq⟩ := h q
  · simp only [World.isAlive, hq]
  · simp [World.isAlive, hq, hrec, Record.isAlive]

theorem isAlive_watch (r q : RecordId) : (w.watch r).2.isAlive q = w.isAlive q := by
  obtain (hw | ⟨e, hw⟩) | ⟨t, v, hw, hreg⟩ := watch_cases (w := w) r
  · rw [hw]
  · rw [hw]
  · obtain ⟨rec, hrec, -, hv⟩ := hreg.found
    rw [hw]
    exact hv.isAlive hrec (by simp) q

/-- No object ends its life when an observing handle goes, even the last one. -/
theorem Sound.isAlive_tick (h : w.Sound) {rest : List Task}
    (ht : (∃ s, w.pending = .dropSoft s :: rest) ∨ ∃ r, w.pending = .forget r :: rest)
    (q : RecordId) : w.tick.isAlive q = w.isAlive q := by
  obtain ⟨s, hp⟩ | ⟨r, hp⟩ := ht
  · simp only [tick, hp, perform]
    cases s with
    | none => rfl
    | some k => exact isAlive_modifyRecord (fun rec => rec.isAlive_deregister k.ticket) k.record q
  · have hs := stakes_pop hp
    have hv : w.tick.stakes = { w with pending := rest }.stakes ∨
        w.tick.stakes = {.retires r} + { w with pending := rest }.stakes := by
      simp only [tick, hp, perform]
      exact stakes_forget r
    have htick : w.tick.Sound := h.run .tick
    rw [Bool.eq_iff_iff, ← h.owns_iff, ← htick.owns_iff]
    obtain hv | hv := hv <;> simp [hv, hs, ofTask]

/-- No object starts or ends its life when only observing handles come and go. -/
theorem Sound.isAlive_observes (h : w.Sound) {a : Action} (ha : w.Observes a) (q : RecordId) :
    (a.run w).isAlive q = w.isAlive q := by
  cases a with
  | newSoft => rfl
  | newScan r i =>
    exact newScan_frame (·.isAlive q = w.isAlive q) r i rfl (isAlive_watch · q) fun _ _ hv => hv
  | newWalk r i =>
    exact newWalk_frame (·.isAlive q = w.isAlive q) r i rfl (isAlive_watch · q) fun _ _ hv => hv
  | attach r p =>
    exact attach_frame (·.isAlive q = w.isAlive q) r p rfl (isAlive_watch r q) fun _ s hv =>
      (isAlive_congr (records_setSoft p s) q).trans hv
  | swapSofts p r => exact isAlive_congr (records_swapSofts p r) q
  | exchangeBack g i p => exact (edits_exchangeBack g i p).isAlive q
  | discardSoft p => exact isAlive_congr (records_discardSoft p) q
  | tick =>
    obtain ⟨rest, ht⟩ := ha
    exact h.isAlive_tick ht q
  | _ => cases ha

theorem Sound.isAlive_reachesObserving (h : w.Sound) (hv : w.ReachesObserving v) (q : RecordId) :
    v.isAlive q = w.isAlive q := by
  induction hv with
  | refl => rfl
  | step hu ha ih => rw [(h.reaches hu.reaches).isAlive_observes ha, ih]

/-! ### Soundness of observing handles -/

theorem Sound.isOwned_iff (h : w.Sound) (r : RecordId) : w.IsOwned r ↔ w.isAlive r = true := by
  rw [← owns_mem_stakes, h.owns_iff]

theorem Sound.not_isOwned_iff (h : w.Sound) (r : RecordId) :
    ¬ w.IsOwned r ↔ w.isAlive r = false := by
  rw [h.isOwned_iff, Bool.not_eq_true]

/-- The object of a record that is dead is dead for good, and so is every handle to it. -/
theorem Sound.watched_later (h : w.Sound) (ha : w.isAlive r = false)
    (hr : ∃ rec, w.records[r]? = some rec) (hv : w.Reaches v) {j : Watch} (hj : j.record = r) :
    v.watched (some j) = .error .gone := by
  obtain ⟨rec, hr⟩ := hr
  obtain ⟨new, hnew, hlater⟩ := h.later hv hr
  have hrec : rec.isAlive = false := by simpa [isAlive, hr] using ha
  refine watched_of_dead ?_
  simp [isAlive, hj, hnew, hlater.dead hrec]

/-- In every reachable world, in the midst of destruction too, an observing handle that
exists is valid, has an address, and can be read and borrowed through without being told
that the object is gone, exactly if some owner holds what it watches. A finalizer that
looks at it finds the same, of the handle and of a copy of it. Once it is told that the
object is gone, so is every handle to that allocation, from then on. Observing handles
that come, move and go do not change which handles are valid. -/
theorem valid_iff_owned (h : w.Reachable) (hk : w.IsHeld k) :
    (w.isValid (some k) = true ↔ w.IsOwned k.record) ∧
    ((w.softAddress? (some k)).isSome = true ↔ w.IsOwned k.record) ∧
    (∀ a, (w.watched (some k) >>= fun r => w.open? r a) = .error .gone ↔ ¬ w.IsOwned k.record) ∧
    (∀ p a, w.soft p = some k →
      ((w.lend (.soft p) a).1 = .error .gone ↔ ¬ w.IsOwned k.record)) ∧
    (∀ value f next rest, w.pending = .dropItem (.node value f next (some k)) :: rest →
      f.probes = true →
      ∃ seen copy before, w.tick.log = .probed value seen (w.isValid (some k)) copy :: before ∧
        (copy = none ∨ copy = some (false, w.isValid (some k)))) ∧
    (w.watched (some k) = .error .gone → ∀ v, w.Reaches v → ∀ j : Watch, j.record = k.record →
      v.watched (some j) = .error .gone) ∧
    (∀ v, w.ReachesObserving v → v.IsHeld k → v.isValid (some k) = w.isValid (some k)) := by
  have hs := h.sound
  have hm := watches_mem_stakes.mpr hk
  refine ⟨?_, ?_, fun a => ?_, fun p a hp => ?_, fun value f next rest hp hf => ?_,
    fun hg v hv j hj => ?_, fun v hv hkv => ?_⟩
  · rw [hs.isValid_eq hm, hs.isOwned_iff]
  · rw [hs.softAddress?_isSome hm, hs.isOwned_iff]
  · rw [hs.read_eq_gone_iff hm, hs.not_isOwned_iff]
  · rw [hs.lend_eq_gone_iff hm hp, hs.not_isOwned_iff]
  · rw [hs.isValid_eq hm]
    exact hs.probed hp hf
  · exact hs.watched_later ((hs.watched_eq_gone_iff hm).mp hg) (hs.record_of_mem hm rfl) hv hj
  · have hsv := hs.reaches hv.reaches
    rw [hs.isValid_eq hm, hsv.isValid_eq (watches_mem_stakes.mpr hkv),
      hs.isAlive_reachesObserving hv]

/-- A node that is observed, just after its owner has started to go: the finalizer is
still to run, and the slot still says that the object is live. -/
def underDestruction : World :=
  [.construct 0 ⟨.one, .node, .tracked⟩ (.single (.node 7 .plain)), .newSoft, .attach 0 (.soft 0),
    .discardOwner 0, .tick].foldl Action.run (start defaultGrant)

theorem not_valid_underDestruction :
    underDestruction.IsHeld ⟨0, some ⟨0, 0⟩⟩ ∧ ¬ underDestruction.IsOwned 0 := by
  have hk : underDestruction.IsHeld ⟨0, some ⟨0, 0⟩⟩ := .inl ⟨.soft 0, by decide⟩
  have hv := (valid_iff_owned (reachable_foldl _ _) hk).1
  exact ⟨hk, fun ho => absurd (hv.mpr ho) (by decide)⟩

end World

end Custody

import Custody.Proofs.Ledger.Tasks
import Custody.Proofs.Memory.Apart

/-! Objects are destroyed once, and never under a guard. The destruction of an object
starts when the object is taken out of its record; its block stays in the record until
everything that the destruction started is done. -/

namespace Custody

namespace World

variable {u v w : World} {a : Action} {r : RecordId} {rec : Record} {todo rest : List Task}

/-- The block of a record, until it is handed back. -/
def block? (w : World) (r : RecordId) : Option Block := w.records[r]?.bind Record.block

/-- An action starts to destroy the object of a record: one more end of its destruction is
pending. -/
def Begins (w : World) (a : Action) (r : RecordId) : Prop :=
  w.pending.count (.retire r) < (a.run w).pending.count (.retire r)

/-- An action hands back the block of a record. -/
def HandsBack (w : World) (a : Action) (r : RecordId) : Prop :=
  (w.block? r).isSome = true ∧ (a.run w).block? r = none

theorem object?_of_record (hr : w.records[r]? = some rec) : w.object? r = rec.object := by
  simp [object?, hr]

theorem block?_of_record (hr : w.records[r]? = some rec) : w.block? r = rec.block := by
  simp [block?, hr]

/-! ### Guards -/

theorem forall_guards_of_loans (h : w.loans r = 0) : ∀ g ∈ w.guards, g.2.record ≠ r := by
  intro g hg hr
  have hmem := mem_loans.mpr ⟨g, hg, hr, rfl⟩
  rw [h] at hmem
  exact Multiset.notMem_zero _ hmem

/-- What a guard is on has its object and its block. -/
theorem Sound.kept_of_guard (h : w.Sound) {g : Nat × Guard} (hg : g ∈ w.guards) :
    ∃ items b, w.object? g.2.record = some items ∧ w.block? g.2.record = some b := by
  obtain ⟨rec, hr⟩ := h.record_of_guard hg
  have hag := h.agrees hr
  have hl : w.loans g.2.record ≠ 0 := fun h0 => forall_guards_of_loans h0 g hg rfl
  have ho := hag.kept hl
  obtain ⟨items, hitems⟩ := Option.isSome_iff_exists.mp ho
  obtain ⟨b, hb⟩ := Option.isSome_iff_exists.mp (hag.housed ho)
  exact ⟨items, b, by rw [object?_of_record hr, hitems], by rw [block?_of_record hr, hb]⟩

/-! ### The start -/

theorem Schedules.of_mem {ts : List Task} (h : w.Schedules ts) (hr : .retire r ∈ ts) :
    ∃ items tail, w.object? r = some items ∧ ts = items.map .dropItem ++ .retire r :: tail := by
  cases h with
  | plain hq => exact absurd hr (hq r)
  | @destroy q items tail ho hq =>
    obtain rfl : r = q := by simpa [hq r] using hr
    exact ⟨items, tail, ho, rfl⟩

/-- The object was there, and its elements come first in what is pending. -/
theorem Sound.pending_begins (h : w.Sound) (hb : w.Begins a r) :
    ∃ items rest, w.object? r = some items ∧
      (a.run w).pending = items.map .dropItem ++ .retire r :: rest := by
  obtain ⟨ts, base, hts, hrun, hbase⟩ := pending_run h a
  have hle : base.count (.retire r) ≤ w.pending.count (.retire r) := by
    obtain hbase | ⟨t, -, hbase⟩ := hbase
    · rw [hbase]
    · rw [hbase]
      exact List.count_le_count_cons
  have hmem : .retire r ∈ ts := by
    rw [Begins, hrun, List.count_append] at hb
    exact List.count_pos_iff.mp (by omega)
  obtain ⟨items, tail, ho, rfl⟩ := hts.of_mem hmem
  exact ⟨items, tail ++ base, ho, by rw [hrun]; simp⟩

/-- An object is gone from its record while the end of its destruction is pending. -/
theorem Sound.isRetiring_of_mem (h : w.Sound) (hr : w.records[r]? = some rec)
    (hm : .retire r ∈ w.pending) : rec.isRetiring = true := by
  have hc := h.count_retire hr
  have hpos := List.count_pos_iff.mpr hm
  cases hret : rec.isRetiring with
  | true => rfl
  | false =>
    rw [hret, Bool.toNat_false] at hc
    omega

theorem isRetiring_iff : rec.isRetiring = true ↔ rec.object = none ∧ rec.block.isSome = true := by
  simp [Record.isRetiring]

/-- The object is taken out, and nothing borrowed it. -/
theorem Sound.begins (h : w.Sound) (hb : w.Begins a r) :
    ∃ new, (a.run w).records[r]? = some new ∧ new.isRetiring = true ∧
      w.loans r = 0 ∧ (a.run w).loans r = 0 := by
  obtain ⟨items, rest, ho, hp⟩ := h.pending_begins hb
  obtain ⟨rec, hr, hitems⟩ := Option.bind_eq_some_iff.mp ho
  have hstep := step_run h a r
  obtain ⟨new, hnew, -⟩ := h.later (.once a) hr
  have hret := (h.run a).isRetiring_of_mem hnew (by simp [hp])
  have hnone := (isRetiring_iff.mp hret).1
  obtain ⟨hloans, -⟩ := hstep.of_emptied hr hnew (by simp [hitems]) hnone
  have hl : (a.run w).loans r = 0 := by
    by_contra hl
    have := ((h.run a).agrees hnew).kept hl
    simp [hnone] at this
  exact ⟨new, hnew, hret, hloans.symm.trans hl, hl⟩

/-- There is no other way for an object to leave its record. -/
theorem Sound.begins_of_emptied (h : w.Sound) (hr : w.records[r]? = some rec)
    (ho : rec.object.isSome = true) (he : (a.run w).object? r = none) : w.Begins a r := by
  have hstep := step_run h a r
  obtain ⟨new, hnew, -⟩ := h.later (.once a) hr
  rw [object?_of_record hnew] at he
  obtain ⟨-, hblock⟩ := hstep.of_emptied hr hnew ho he
  have hret : new.isRetiring = true := by
    rw [isRetiring_iff, hblock]
    exact ⟨he, (h.agrees hr).housed ho⟩
  have hold : rec.isRetiring = false := by
    obtain ⟨items, hitems⟩ := Option.isSome_iff_exists.mp ho
    simp [Record.isRetiring, hitems]
  rw [Begins, h.count_retire hr, (h.run a).count_retire hnew, hold, hret]
  exact Nat.zero_lt_one

/-- An object that is gone was destroyed at some time. -/
theorem Reachable.began (h : w.Reachable) (hr : w.records[r]? = some rec) (ho : rec.object = none) :
    ∃ (u : World) (a : Action), u.Reachable ∧ u.Begins a r ∧ (a.run u).Reaches w := by
  obtain ⟨grant, h⟩ := h
  induction h generalizing rec with
  | refl => simp [start] at hr
  | @step v a hv ih =>
    have hv' : v.Reachable := ⟨grant, hv⟩
    cases hrec : v.records[r]? with
    | none =>
      have := (step_run hv'.sound a r).object_of_found hrec hr
      simp [ho] at this
    | some old =>
      cases hold : old.object with
      | none =>
        obtain ⟨u, b, hu, hb, hreach⟩ := ih hrec hold
        exact ⟨u, b, hu, hb, .step a hreach⟩
      | some items =>
        have he : (a.run v).object? r = none := by rw [object?_of_record hr, ho]
        exact ⟨v, a, hv', hv'.sound.begins_of_emptied hrec (by simp [hold]) he, .refl⟩

/-! ### Until the block is handed back -/

theorem Sound.block?_later (h : w.Sound) (hr : w.records[r]? = some rec) (hb : rec.block = none)
    (hv : w.Reaches v) : v.block? r = none := by
  obtain ⟨new, hnew, hlater⟩ := h.later hv hr
  rw [block?_of_record hnew, hlater.released hb]

/-- No end of a destruction is pending once the block is handed back. -/
theorem Sound.notMem_of_block? (h : w.Sound) (hr : w.records[r]? = some rec)
    (hb : w.block? r = none) : .retire r ∉ w.pending := by
  intro hmem
  have hret := (isRetiring_iff.mp (h.isRetiring_of_mem hr hmem)).2
  rw [← block?_of_record hr, hb] at hret
  cases hret

/-- One action does some of what the destruction of `r` has still to do, or its end. -/
theorem Sound.underway_run (h : w.Sound) (a : Action) (hr : w.records[r]? = some rec)
    (hp : w.pending = todo ++ .retire r :: rest) :
    (a.run w).block? r = none ∨ ∃ todo, (a.run w).pending = todo ++ .retire r :: rest := by
  have hret := h.isRetiring_of_mem hr (by simp [hp])
  obtain ⟨ts, base, hts, hrun, hbase | ⟨t, -, hbase⟩⟩ := pending_run h a
  · exact .inr ⟨ts ++ todo, by rw [hrun, ← hbase, hp, List.append_assoc]⟩
  · rw [hp] at hbase
    cases todo with
    | cons s todo =>
      rw [List.cons_append] at hbase
      obtain ⟨rfl, rfl⟩ := List.cons.inj hbase
      exact .inr ⟨ts ++ todo, by rw [hrun, List.append_assoc]⟩
    | nil =>
      -- the end itself is done; nothing puts another one there
      obtain ⟨rfl, rfl⟩ := List.cons.inj hbase
      obtain ⟨new, hnew, hlater⟩ := h.later (.once a) hr
      have hnone := (isRetiring_iff.mp hret).1
      have hts : .retire r ∉ ts := fun hmem => by
        obtain ⟨items, tail, ho, -⟩ := hts.of_mem hmem
        rw [object?_of_record hr, hnone] at ho
        cases ho
      have hrest : .retire r ∉ rest := fun hmem => by
        have hc := h.count_retire hr
        have hpos := List.count_pos_iff.mpr hmem
        rw [hp, hret, List.nil_append, List.count_cons_self, Bool.toNat_true] at hc
        omega
      have hfalse : new.isRetiring = false := by
        have hc := (h.run a).count_retire hnew
        rw [hrun, List.count_append, List.count_eq_zero.mpr hts, List.count_eq_zero.mpr hrest] at hc
        simpa using hc.symm
      have hempty := hlater.empty hnone
      rw [block?_of_record hnew]
      exact .inl (by simpa [Record.isRetiring, hempty] using hfalse)

/-- The block is in its record just as long as the end of the destruction is pending, above
the same tasks as when it started. -/
theorem Sound.underway (h : w.Sound) (hr : w.records[r]? = some rec)
    (hp : w.pending = todo ++ .retire r :: rest) (hv : w.Reaches v) :
    (v.block? r).isSome = true ↔ ∃ todo, v.pending = todo ++ .retire r :: rest := by
  have hcases : v.block? r = none ∨ ∃ todo, v.pending = todo ++ .retire r :: rest := by
    induction hv with
    | refl => exact .inr ⟨todo, hp⟩
    | @step u a hu ih =>
      have hus := h.reaches hu
      obtain ⟨mid, hmid, -⟩ := h.later hu hr
      obtain hnone | ⟨todo, hp⟩ := ih
      · rw [block?_of_record hmid] at hnone
        exact .inl (hus.block?_later hmid hnone (.once a))
      · exact hus.underway_run a hmid hp
  constructor
  · intro hb
    exact hcases.resolve_left (Option.isSome_iff_ne_none.mp hb)
  · rintro ⟨todo, hp⟩
    obtain ⟨new, hnew, -⟩ := h.later hv hr
    have hret := (h.reaches hv).isRetiring_of_mem hnew (by simp [hp])
    rw [block?_of_record hnew]
    exact (isRetiring_iff.mp hret).2

/-- A block is handed back when the end of the destruction is next to be done. -/
theorem Sound.handsBack (h : w.Sound) (hb : w.HandsBack a r) :
    ∃ rec, w.records[r]? = some rec ∧ rec.object = none ∧ a = .tick ∧
      ∃ rest, w.pending = .retire r :: rest ∧ .retire r ∉ rest := by
  obtain ⟨hblock, hnone⟩ := hb
  obtain ⟨b, hblock⟩ := Option.isSome_iff_exists.mp hblock
  obtain ⟨rec, hr, hblock⟩ := Option.bind_eq_some_iff.mp hblock
  have hstep := step_run h a r
  obtain ⟨new, hnew, -⟩ := h.later (.once a) hr
  have hnotMem := (h.run a).notMem_of_block? hnew hnone
  rw [block?_of_record hnew] at hnone
  have hempty : new.object = none := by
    by_contra ho
    have := ((h.run a).agrees hnew).housed (Option.isSome_iff_ne_none.mpr ho)
    simp [hnone] at this
  have hobj : rec.object = none := by
    by_contra ho
    have := (hstep.of_emptied hr hnew (Option.isSome_iff_ne_none.mpr ho) hempty).2
    simp [hnone, hblock] at this
  have hcount := h.count_retire hr
  rw [isRetiring_iff.mpr ⟨hobj, by simp [hblock]⟩, Bool.toNat_true] at hcount
  obtain ⟨ts, base, -, hrun, hbase⟩ := pending_run h a
  have hbaseNot : .retire r ∉ base := fun hmem => hnotMem (by simp [hrun, hmem])
  obtain hbase | ⟨t, ha, hbase⟩ := hbase
  · rw [hbase, List.count_eq_zero.mpr hbaseNot] at hcount
    omega
  · have hmem : .retire r ∈ t :: base := by
      rw [← hbase]
      exact List.count_pos_iff.mp (by omega)
    obtain rfl | hmem := List.mem_cons.mp hmem
    · exact ⟨rec, hr, hobj, ha, base, hbase, hbaseNot⟩
    · exact absurd hmem hbaseNot

/-! ### Single destruction -/

/-- No object is destroyed that was destroyed before. -/
theorem Sound.not_begins_again (h : w.Sound) (hb : w.Begins a r) (hv : (a.run w).Reaches v)
    (b : Action) : ¬ v.Begins b r := by
  intro hagain
  obtain ⟨new, hnew, hret, -, -⟩ := h.begins hb
  obtain ⟨later, hr, hlater⟩ := (h.run a).later hv hnew
  obtain ⟨items, -, ho, -⟩ := ((h.run a).reaches hv).pending_begins hagain
  rw [object?_of_record hr, hlater.empty (isRetiring_iff.mp hret).1] at ho
  cases ho

/-- No block is handed back that was handed back before. -/
theorem Sound.not_handsBack_again (h : w.Sound) (hb : w.HandsBack a r) (hv : (a.run w).Reaches v)
    (b : Action) : ¬ v.HandsBack b r := by
  rintro ⟨hblock, -⟩
  obtain ⟨rec, hr, -⟩ := h.handsBack hb
  obtain ⟨new, hnew, -⟩ := h.later (.once a) hr
  have hnone := hb.2
  rw [block?_of_record hnew] at hnone
  rw [(h.run a).block?_later hnew hnone hv] at hblock
  cases hblock

/-- A block is handed back only after a destruction that started earlier: what was pending
below its end when it started is what is left to do now. -/
theorem Reachable.began_before (h : w.Reachable) (hb : w.HandsBack a r) :
    ∃ (u : World) (b : Action) (items : List Item) (rest : List Task),
      u.Reachable ∧ u.Begins b r ∧ (b.run u).Reaches w ∧
      u.object? r = some items ∧ (b.run u).pending = items.map .dropItem ++ .retire r :: rest ∧
      w.pending = .retire r :: rest := by
  obtain ⟨rec, hr, ho, -, rest, hp, hnot⟩ := h.sound.handsBack hb
  obtain ⟨u, b, hu, hbegins, hreach⟩ := h.began hr ho
  obtain ⟨items, below, hitems, hstart⟩ := hu.sound.pending_begins hbegins
  obtain ⟨new, hnew, -⟩ := hu.sound.begins hbegins
  obtain ⟨todo, hw⟩ := ((hu.sound.run b).underway hnew hstart hreach).mp hb.1
  -- nothing is left to do before the end, since the end is first and is there once
  cases todo with
  | nil => exact ⟨u, b, items, below, hu, hbegins, hreach, hitems, hstart, hw⟩
  | cons t todo =>
    rw [hp] at hw
    obtain ⟨-, rfl⟩ := List.cons.inj hw
    simp at hnot

/-- In every reachable world what a guard is on has its object, in a block that is in no
quarantine and no other object's. The destruction of an object starts under no guard, and
once at most; from then on the block is in its record just as long as the end of the
destruction is pending, below the tasks of the object's elements and all that they start.
A block is handed back only by that end, once at most, when all of those are done. -/
theorem objects_destroyed_once (h : w.Reachable) :
    (∀ g ∈ w.guards, ∃ items b, w.object? g.2.record = some items ∧
      w.block? g.2.record = some b ∧
      (∀ heap ∈ w.heaps, ∀ z ∈ heap.quarantine.blocks, b.Apart z) ∧
      ∀ r c, r ≠ g.2.record → w.block? r = some c → b.Apart c) ∧
    (∀ a r, w.Begins a r →
      (∀ g ∈ w.guards ++ (a.run w).guards, g.2.record ≠ r) ∧
      (∃ items rest, w.object? r = some items ∧ (a.run w).object? r = none ∧
        (a.run w).pending = items.map .dropItem ++ .retire r :: rest ∧
        ∀ v, (a.run w).Reaches v →
          ((v.block? r).isSome = true ↔ ∃ todo, v.pending = todo ++ .retire r :: rest)) ∧
      ∀ v b, (a.run w).Reaches v → ¬ v.Begins b r) ∧
    (∀ a r, (w.object? r).isSome = true → (a.run w).object? r = none → w.Begins a r) ∧
    (∀ a r, w.HandsBack a r →
      a = .tick ∧
      (∃ (u : World) (b : Action) (items : List Item) (rest : List Task),
        u.Reachable ∧ u.Begins b r ∧ (b.run u).Reaches w ∧
        u.object? r = some items ∧ (b.run u).pending = items.map .dropItem ++ .retire r :: rest ∧
        w.pending = .retire r :: rest) ∧
      ∀ v b, (a.run w).Reaches v → ¬ v.HandsBack b r) := by
  have hs := h.sound
  refine ⟨fun g hg => ?_, fun a r hb => ⟨?_, ?_, fun v b hv => hs.not_begins_again hb hv b⟩,
    fun a r ho he => ?_, fun a r hb => ⟨?_, h.began_before hb, fun v b hv =>
      hs.not_handsBack_again hb hv b⟩⟩
  · obtain ⟨items, b, ho, hb⟩ := hs.kept_of_guard hg
    obtain ⟨rec, hr, hblock⟩ := Option.bind_eq_some_iff.mp hb
    refine ⟨items, b, ho, hb, fun heap hheap z hz => h.laid.apart_kept hr hblock hheap hz,
      fun r c hne hc => ?_⟩
    obtain ⟨other, hother, hc⟩ := Option.bind_eq_some_iff.mp hc
    exact h.laid.apart_record hr hblock hother hc hne.symm
  · obtain ⟨-, -, -, hbefore, hafter⟩ := hs.begins hb
    intro g hg
    obtain hg | hg := List.mem_append.mp hg
    · exact forall_guards_of_loans hbefore g hg
    · exact forall_guards_of_loans hafter g hg
  · obtain ⟨items, rest, ho, hp⟩ := hs.pending_begins hb
    obtain ⟨new, hnew, hret, -, -⟩ := hs.begins hb
    refine ⟨items, rest, ho, ?_, hp, fun v hv => (hs.run a).underway hnew hp hv⟩
    rw [object?_of_record hnew, (isRetiring_iff.mp hret).1]
  · obtain ⟨items, hitems⟩ := Option.isSome_iff_exists.mp ho
    obtain ⟨rec, hr, hobj⟩ := Option.bind_eq_some_iff.mp hitems
    exact hs.begins_of_emptied hr (by simp [hobj]) he
  · obtain ⟨-, -, -, ha, -⟩ := hs.handsBack hb
    exact ha

/-- A node that two guards are on, one of them narrowed to its number, after its owner has
gone. -/
def guardedOrphan : World :=
  [.construct 0 ⟨.one, .node, .tracked⟩ (.single (.node 7 .plain)), .newSoft, .attach 0 (.soft 0),
    .lend (.soft (.soft 0)) .shared, .duplicate 0, .narrow 1 0, .discardOwner 0, .tick,
    .tick].foldl Action.run (start defaultGrant)

/-- The same node when the guards have ended and its last handle is about to be gone. -/
def lastHandle : World :=
  [.endBorrow 0, .endBorrow 1, .discardSoft (.soft 0), .tick].foldl Action.run guardedOrphan

theorem destroyed_lastHandle :
    (guardedOrphan.isAlive 0 = false ∧ ∃ items, guardedOrphan.object? 0 = some items) ∧
      lastHandle.Begins .tick 0 ∧ ∀ v b, lastHandle.tick.Reaches v → ¬ v.Begins b 0 := by
  have hguarded : guardedOrphan.Reachable := reachable_foldl _ _
  have hlast : lastHandle.Reachable := hguarded.reaches (reaches_foldl _ _)
  have hguard : (1, ⟨0, .shared, .soft (.soft 0), .number 0⟩) ∈ guardedOrphan.guards := by decide
  obtain ⟨items, b, ho, -⟩ := (objects_destroyed_once hguarded).1 _ hguard
  have hbegins : lastHandle.Begins .tick 0 := by
    unfold Begins
    decide
  have honce := ((objects_destroyed_once hlast).2.1 .tick 0 hbegins).2.2
  exact ⟨⟨by decide, items, ho⟩, hbegins, honce⟩

end World

end Custody

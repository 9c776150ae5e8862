import Custody.Proofs.Destruction
import Custody.Proofs.Heap.Accounts
import Custody.Proofs.Quiescence
import Mathlib.Data.Fintype.Card

/-! Nothing leaks. An object that is there is kept by a handle. When the program has no
handle left, that handle is in another object, which owns the object, or observes it while
it is an orphan. So where no object keeps itself in this way, nothing is left, and the heaps
count nothing as live. Where orphans keep each other, they stay. -/

namespace Custody

open Stake Relation

/-- The finalizer that a task runs, if it destroys a node. -/
def Task.finalizer? : Task → Option Finalizer
  | .dropItem (.node _ f ..) => some f
  | _ => none

namespace World

variable {v w : World} {r : RecordId} {rec : Record}

/-- The program has no handle, no raw block and no guard. -/
@[mk_iff]
structure EmptyHanded (w : World) : Prop where
  owners : ∀ o ∈ w.owners.toList, o = none
  softs : ∀ s ∈ w.softs.toList, s = none
  scans : ∀ c ∈ w.scans.toList, c.array = none
  walks : ∀ k ∈ w.walks.toList, k.node = none ∧ k.buckets.array = none
  blocks : ∀ b ∈ w.blocks.toList, b = none
  guards : w.guards = []

instance (w : World) : Decidable w.EmptyHanded := decidable_of_iff' _ (emptyHanded_iff w)

/-- An element of one object owns the other. -/
def Owns (w : World) (p q : RecordId) : Prop :=
  ∃ items, w.object? p = some items ∧ ∃ i ∈ items, i.link = some q

/-- An element of one object owns the other, or it observes the other, which has lost its
owner. -/
def Sustains (w : World) (p q : RecordId) : Prop :=
  w.Owns p q ∨ w.isAlive q = false ∧
    ∃ items, w.object? p = some items ∧ ∃ i ∈ items, i.back.map Watch.record = some q

/-! ### What keeps an object -/

theorem ofScan_eq_zero {c : Scan} (h : c.array = none) : ofScan c = 0 := by
  rw [ofScan, h, ofSoft_none]

theorem EmptyHanded.stakes_eq (he : w.EmptyHanded) (hp : w.pending = []) :
    w.stakes = tally ofRecord w.records.toList := by
  have howners : tally ofOwner w.owners.toList = 0 :=
    tally_eq_zero fun o ho => by rw [he.owners o ho, ofOwner_none]
  have hsofts : tally ofSoft w.softs.toList = 0 :=
    tally_eq_zero fun s hs => by rw [he.softs s hs, ofSoft_none]
  have hscans : tally ofScan w.scans.toList = 0 :=
    tally_eq_zero fun c hc => ofScan_eq_zero (he.scans c hc)
  have hwalks : tally ofWalk w.walks.toList = 0 := tally_eq_zero fun k hk => by
    obtain ⟨hnode, harray⟩ := he.walks k hk
    rw [ofWalk, hnode, ofScan_eq_zero harray, ofSoft_none, add_zero]
  rw [stakes, howners, hsofts, hscans, hwalks, hp, tally_nil]
  simp only [zero_add, add_zero]

/-- A handle in an element is its owner or its observing handle. -/
theorem of_mem_ofItem {s : Stake} {i : Item} (h : s ∈ ofItem i) :
    i.link = some s.record ∨ i.back.map Watch.record = some s.record := by
  obtain h | h := Multiset.mem_add.mp h
  · cases hl : i.link with
    | none => simp [hl] at h
    | some r =>
      obtain rfl : s = .owns r := by simpa [hl] using h
      exact .inl rfl
  · cases hb : i.back with
    | none => simp [hb] at h
    | some k =>
      obtain rfl : s = .watches k := by simpa [hb] using h
      exact .inr rfl

/-- Every stake is in an element of an object. -/
theorem EmptyHanded.stored (he : w.EmptyHanded) (hp : w.pending = []) {s : Stake}
    (hs : s ∈ w.stakes) : ∃ p items, w.object? p = some items ∧ ∃ i ∈ items, s ∈ ofItem i := by
  rw [he.stakes_eq hp, mem_tally] at hs
  obtain ⟨rec, hrec, hs⟩ := hs
  obtain ⟨items, ho, i, hi, hs⟩ := mem_ofRecord.mp hs
  obtain ⟨p, hp⟩ := Array.mem_iff_getElem?.mp (Array.mem_toList_iff.mp hrec)
  exact ⟨p, items, by rw [object?, hp, Option.bind_some, ho], i, hi, hs⟩

/-- An object that is there is kept by another one. -/
theorem Reachable.sustained (h : w.Reachable) (he : w.EmptyHanded) (hp : w.pending = [])
    (ho : (w.object? r).isSome = true) : ∃ p, w.Sustains p r := by
  obtain ⟨items, hitems⟩ := Option.isSome_iff_exists.mp ho
  obtain ⟨rec, hr, hobj⟩ := Option.bind_eq_some_iff.mp hitems
  cases ha : w.isAlive r with
  | true =>
    obtain ⟨p, items, hitems, i, hi, hmem⟩ := he.stored hp ((h.sound.owns_iff r).mpr ha)
    exact ⟨p, .inl ⟨items, hitems, i, hi, owns_mem_ofItem.mp hmem⟩⟩
  | false =>
    -- the owner has gone, so any handle will do
    have hpos := h.handles_pos hr (by rw [hobj, Option.isSome_some])
    rw [(h.sound.agrees hr).counted] at hpos
    obtain ⟨s, hs, -⟩ := Multiset.countP_pos.mp hpos
    obtain ⟨hmem, rfl⟩ := mem_stakesIn.mp hs
    obtain ⟨p, items, hitems, i, hi, hmem⟩ := he.stored hp hmem
    obtain hl | hb := of_mem_ofItem hmem
    · exact ⟨p, .inl ⟨items, hitems, i, hi, hl⟩⟩
    · exact ⟨p, .inr ⟨ha, items, hitems, i, hi, hb⟩⟩

theorem Sustains.object? {p q : RecordId} (h : w.Sustains p q) : (w.object? p).isSome = true := by
  obtain ⟨items, ho, -⟩ | ⟨-, items, ho, -⟩ := h
  all_goals rw [ho, Option.isSome_some]

theorem lt_of_object? (h : (w.object? r).isSome = true) : r < w.records.size := by
  obtain ⟨items, hitems⟩ := Option.isSome_iff_exists.mp h
  obtain ⟨rec, hr, -⟩ := Option.bind_eq_some_iff.mp hitems
  exact (Array.getElem?_eq_some_iff.mp hr).1

/-- Where each object is kept by another one and none keeps itself, there is none: an
object that nothing keeps would be reached after finitely many steps. -/
theorem object?_eq_none_of_acyclic (hkept : ∀ r, (w.object? r).isSome = true → ∃ p, w.Sustains p r)
    (hc : ∀ r, ¬ TransGen w.Sustains r r) (r : RecordId) : w.object? r = none := by
  let before (p q : Fin w.records.size) : Prop := TransGen w.Sustains p q
  have : IsTrans _ before := ⟨fun _ _ _ => TransGen.trans⟩
  have : Std.Irrefl before := ⟨fun p => hc p⟩
  have hwf : WellFounded before := Finite.wellFounded_of_trans_of_irrefl before
  have hnone (q : Fin w.records.size) : (w.object? q).isSome = false := by
    induction q using hwf.induction with
    | h q ih =>
      by_contra ho
      obtain ⟨p, hp⟩ := hkept q (Bool.eq_true_of_not_eq_false ho)
      have hgone := ih ⟨p, lt_of_object? hp.object?⟩ (.single hp)
      exact absurd (hp.object?.symm.trans hgone) (by decide)
  by_contra ho
  have ho : (w.object? r).isSome = true := Option.isSome_iff_ne_none.mpr ho
  exact absurd (ho.symm.trans (hnone ⟨r, lt_of_object? ho⟩)) (by decide)

/-- An object that is gone has given back its block, once nothing is pending. -/
theorem Sound.block_eq_none (h : w.Sound) (hp : w.pending = []) (hr : w.records[r]? = some rec)
    (ho : rec.object = none) : rec.block = none := by
  have hcount := h.count_retire hr
  rw [hp, List.count_nil] at hcount
  cases hb : rec.block with
  | none => rfl
  | some b =>
    have hret : rec.isRetiring = true := isRetiring_iff.mpr ⟨ho, by rw [hb, Option.isSome_some]⟩
    rw [hret] at hcount
    cases hcount

theorem EmptyHanded.charges_eq_zero (he : w.EmptyHanded) (hp : w.pending = [])
    (hb : ∀ (r : RecordId) (rec : Record), w.records[r]? = some rec → rec.block = none) :
    w.charges = 0 := by
  have hrecords : tally Charge.ofRecord w.records.toList = 0 := tally_eq_zero fun rec hrec => by
    obtain ⟨r, hr⟩ := Array.mem_iff_getElem?.mp (Array.mem_toList_iff.mp hrec)
    rw [Charge.ofRecord, Extent.ofRecord, hb r rec hr, Extent.ofBlock?, Multiset.map_zero]
  have hblocks : tally Charge.ofLoose w.blocks.toList = 0 :=
    tally_eq_zero fun b hmem => by rw [he.blocks b hmem, Charge.ofLoose]
  rw [charges, hrecords, hblocks, hp, tally_nil]
  rfl

theorem Accounted.live_eq_zero (ha : w.Accounted) (hc : w.charges = 0) {heap : Heap}
    (hh : heap ∈ w.heaps) : heap.stats.liveBlocks = 0 ∧ heap.stats.liveBytes = 0 := by
  obtain ⟨h, hh⟩ := Array.mem_iff_getElem?.mp hh
  rw [ha.blocks h heap hh, ha.bytes h heap hh, bytesChargedTo, chargedTo, hc]
  exact ⟨rfl, rfl⟩

/-! ### Draining keeps the hands empty -/

theorem EmptyHanded.congr (he : w.EmptyHanded) (hh : v.hands = w.hands) (hg : v.book = w.book) :
    v.EmptyHanded := by
  obtain ⟨ho, hh⟩ := Prod.mk.inj hh
  obtain ⟨hs, hh⟩ := Prod.mk.inj hh
  obtain ⟨hc, hh⟩ := Prod.mk.inj hh
  obtain ⟨hk, hb⟩ := Prod.mk.inj hh
  exact
    { owners := ho ▸ he.owners
      softs := hs ▸ he.softs
      scans := hc ▸ he.scans
      walks := hk ▸ he.walks
      blocks := hb ▸ he.blocks
      guards := (guards_of_book hg).trans he.guards }

theorem reachesTidily_drain (w : World) : w.ReachesTidily w.drain :=
  drain_induction (P := w.ReachesTidily) .refl fun _ hv => .step .tick hv rfl

/-! ### Nothing leaks -/

/-- When the program has no handle, no guard and no raw block left, and every raw block
went back to the heap that it came from, then destruction comes to its end, and if no
object keeps itself, through what it owns and the orphans that it observes, all objects are
gone by then, their blocks are given back, and every heap counts nothing as live. -/
theorem nothing_leaks {grant : Nat} (h : (start grant).ReachesTidily w) (he : w.EmptyHanded)
    (hc : ∀ r, ¬ TransGen w.drain.Sustains r r) :
    w.drain.pending = [] ∧
      (∀ r, w.drain.object? r = none ∧ w.drain.block? r = none) ∧
      ∀ heap ∈ w.drain.heaps, heap.stats.liveBlocks = 0 ∧ heap.stats.liveBytes = 0 := by
  have htidy := h.trans (reachesTidily_drain w)
  have hreach : w.drain.Reachable := ⟨grant, htidy.reaches⟩
  have hidle := pending_drain w
  have hempty : w.drain.EmptyHanded := he.congr hands_drain book_drain
  have hobject := object?_eq_none_of_acyclic (fun r => hreach.sustained hempty hidle) hc
  have hblock (r : RecordId) (rec : Record) (hr : w.drain.records[r]? = some rec) :
      rec.block = none :=
    hreach.sound.block_eq_none hidle hr (by rw [← object?_of_record hr, hobject])
  refine ⟨hidle, fun r => ⟨hobject r, ?_⟩, fun heap hheap => ?_⟩
  · cases hr : w.drain.records[r]? with
    | none => simp [block?, hr]
    | some rec => rw [block?_of_record hr, hblock r rec hr]
  · exact htidy.accounted.live_eq_zero (hempty.charges_eq_zero hidle hblock) hheap

/-- Two nodes: the first owns the second, and the second observes the first. -/
def linkedPair : List Action :=
  [.construct 0 ⟨.one, .node, .tracked⟩ (.single (.node 0 .plain)),
    .construct 0 ⟨.one, .node, .tracked⟩ (.single (.node 1 .plain)), .newSoft, .attach 0 (.soft 0),
    .lend (.owner 1) .exclusive, .exchangeBack 0 0 (.soft 0), .endBorrow 0,
    .lend (.owner 0) .exclusive, .exchangeLink 1 0 1, .endBorrow 1]

/-- A third node loses its owner while it is borrowed; then the borrow and its last handle
go, and the pair goes too. -/
def orphanAndPair : List Action :=
  linkedPair ++ [.construct 0 ⟨.one, .node, .tracked⟩ (.single (.node 2 .plain)), .newSoft,
    .attach 2 (.soft 1), .lend (.soft (.soft 1)) .shared, .discardOwner 2, .tick, .tick,
    .endBorrow 2, .discardSoft (.soft 1), .discardOwner 0]

def after (as : List Action) : World := as.foldl Action.run (start defaultGrant)

theorem orphanAndPair_leaks_nothing :
    ((after (orphanAndPair.take 17)).isAlive 2 = false ∧
      (after (orphanAndPair.take 17)).object? 2 ≠ none) ∧
    (after orphanAndPair).EmptyHanded ∧
    ∀ r, (after orphanAndPair).drain.object? r = none := by
  have he : (after orphanAndPair).EmptyHanded := by decide
  have hgone : ∀ rec ∈ (after orphanAndPair).drain.records.toList, rec.object = none := by
    decide +kernel
  have hc (r : RecordId) : ¬ TransGen (after orphanAndPair).drain.Sustains r r := by
    intro hr
    obtain ⟨q, hq, -⟩ := TransGen.head'_iff.mp hr
    obtain ⟨items, hitems⟩ := Option.isSome_iff_exists.mp hq.object?
    obtain ⟨rec, hrec, ho⟩ := Option.bind_eq_some_iff.mp hitems
    rw [hgone rec (Array.mem_toList_iff.mpr (Array.mem_of_getElem? hrec))] at ho
    cases ho
  have hleak := nothing_leaks (reachesTidily_foldl (by decide)) he hc
  exact ⟨by decide, he, fun r => (hleak.2.1 r).1⟩

/-! ### What can stay -/

/-- A run that leaves the program with nothing in its hands and nothing pending, in which no
object ever owned itself and no finalizer gave up. -/
structure Settles (as : List Action) : Prop where
  acyclic : ∀ n r, ¬ TransGen (after (as.take n)).Owns r r
  quiet : ∀ n, ∀ t ∈ (after (as.take n)).pending, ∀ f ∈ t.finalizer?, f.panics = false
  emptyHanded : (after as).EmptyHanded
  idle : (after as).pending = []

theorem not_owns_self
    (h : ∀ p < w.records.size, ∀ items ∈ w.object? p, ∀ i ∈ items, ∀ q ∈ i.link, p < q)
    (r : RecordId) : ¬ TransGen w.Owns r r := by
  have hlt {p q : RecordId} (hpq : TransGen w.Owns p q) : p < q := by
    refine TransGen.trans_induction_on hpq (fun {p q} hown => ?_) fun _ _ => Nat.lt_trans
    obtain ⟨items, ho, i, hi, hq⟩ := hown
    exact h p (lt_of_object? (by rw [ho, Option.isSome_some])) items ho i hi q hq
  exact fun hr => absurd (hlt hr) (Nat.lt_irrefl r)

/-- What is left to check step by step, when an object owns only younger ones. -/
theorem settles_of {as : List Action} (he : (after as).EmptyHanded) (hp : (after as).pending = [])
    (hyounger : ∀ n ≤ as.length, ∀ p < (after (as.take n)).records.size,
      ∀ items ∈ (after (as.take n)).object? p, ∀ i ∈ items, ∀ q ∈ i.link, p < q)
    (hquiet : ∀ n ≤ as.length, ∀ t ∈ (after (as.take n)).pending, ∀ f ∈ t.finalizer?,
      f.panics = false) : Settles as where
  acyclic n := by
    rw [List.take_eq_take_min]
    exact not_owns_self (hyounger _ (Nat.min_le_right ..))
  quiet n := by
    rw [List.take_eq_take_min]
    exact hquiet _ (Nat.min_le_right ..)
  emptyHanded := he
  idle := hp

/-- The second node of the pair observes the first, which loses its owner while it is
borrowed: each keeps the other, whatever goes. -/
def orphanedPair : List Action :=
  linkedPair ++ [.newSoft, .attach 0 (.soft 1), .lend (.soft (.soft 1)) .shared, .discardOwner 0,
    .tick, .tick, .endBorrow 2, .discardSoft (.soft 1), .tick, .tick, .recover]

/-- A raw block goes back to another heap than the one that granted it. -/
def strayBlock : List Action := [.openHeap .standard, .allot 0 ⟨8, 8⟩ 1, .giveBack 0 1]

theorem not_settles_leaks :
    (¬ ∀ as, Settles as → ∀ r, (after as).object? r = none) ∧
      ¬ ∀ as, Settles as → ∀ heap ∈ (after as).heaps, heap.stats.liveBlocks = 0 := by
  constructor
  · intro h
    have hs : Settles orphanedPair :=
      settles_of (by decide) (by decide) (by decide +kernel) (by decide +kernel)
    exact absurd (h _ hs 0) (by decide)
  · intro h
    have hs : Settles strayBlock :=
      settles_of (by decide) (by decide) (by decide +kernel) (by decide +kernel)
    have hlive : ∃ heap ∈ (after strayBlock).heaps.toList, heap.stats.liveBlocks ≠ 0 := by decide
    obtain ⟨heap, hheap, hne⟩ := hlive
    exact hne (h _ hs heap (Array.mem_toList_iff.mp hheap))

end World

end Custody

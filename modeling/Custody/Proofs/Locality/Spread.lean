import Custody.Proofs.Locality.Batches

/-! How far destruction spreads. Destroying or orphaning one object comes to what the object owns
and to orphans whose last handles go with it, and to what those own. Every other allocation stays as
it is, at every moment until the last task is done, but for the handles to it in what is destroyed;
and nobody who observes it is told anything. -/

namespace Custody

open Relation

namespace World

variable {D E : RecordId → Prop} {a : Action} {is : List Nat} {u v w : World} {q r : RecordId}

/-- What the destruction that `a` starts spares, as far as `v`. -/
structure Contained (w : World) (a : Action) (D E : RecordId → Prop) (v : World) : Prop where
  /-- All else is as it was, but for an owner in it that `a` itself empties. -/
  spared : Spared D E (w.unlinked a) v
  guards : v.guards = w.guards
  hands : v.hands = (a.run w).hands
  /-- The next task tells the observers of one doomed record, if any. -/
  told : ∀ t ts, v.pending = t :: ts ++ w.waiting a → TellsOnly D v v.tick

theorem Sealed.contained (h : w.Sound) (hs : w.Sealed D E [] w.pending) (hr : D r)
    (ha : w.Looses r a) (hv : (a.run w).Works (w.waiting a) v) : w.Contained a D E v := by
  obtain ⟨⟨ts, hstart⟩, hspared, -⟩ := hs.ends h hr ha
  have hrun := h.run a
  obtain ⟨⟨us, hus⟩, hrest⟩ := hstart.works hrun hv
  refine
    { spared := hspared.trans hrest
      guards := (guards_of_book hv.book).trans ha.guards
      hands := hv.hands
      told := fun t ts hp => ?_ }
  obtain rfl : us = t :: ts := List.append_cancel_right (hus.pending.symm.trans hp)
  exact hus.tells (hrun.reaches hv.reaches)

/-- What resetting the owners in some variables spares, and what it does not. -/
structure Outlasts (w : World) (is : List Nat) (v : World) : Prop where
  spared : Spared (w.Doomed (w.OwnedBy is)) (w.Touched (w.OwnedBy is)) w v
  /-- What they owned is gone, unless a guard was in the way. -/
  gone : ∀ r, w.OwnedBy is r → ¬ w.IsGuarded r → v.IsGone r
  /-- Of the handles that are left, just those to what they owned are not valid any more. -/
  valid : ∀ k, v.IsHeld k → (w.Doomed (w.OwnedBy is) k.record →
      w.OwnedBy is k.record ∧ ¬ w.IsGuarded k.record) →
    (v.isValid (some k) = true ↔ w.isValid (some k) = true ∧ ¬ w.OwnedBy is k.record)

theorem Reachable.outlasts (h : w.Reachable) (hp : w.pending = [])
    (hd : w.DropsPlainly (w.OwnedBy is)) : w.Outlasts is (is.foldl emptied w) := by
  have hsealed : w.Sealed (w.Doomed (w.OwnedBy is)) (w.Touched (w.OwnedBy is)) [] [] :=
    hp ▸ sealed_doomed hd
  have hspared := hsealed.foldl_emptied h fun r hr => .root hr
  refine ⟨hspared, fun r => h.isGone_foldl_emptied, fun k hk hdoomed => ?_⟩
  by_cases howned : w.OwnedBy is k.record
  · have hgone := h.isGone_foldl_emptied howned (hdoomed (.root howned)).2
    rw [hgone.invalid k.ticket]
    simp [howned]
  · have hfree : ¬ w.Doomed (w.OwnedBy is) k.record := fun hd => howned (hdoomed hd).1
    rw [(hspared.unharmed k.record hfree).valid k.ticket (mem_observersOf.mpr hk)]
    simp [howned]

/-- Action `a` starts to destroy `r`, or takes its owner away, and this spreads just to what is
doomed with it. -/
structure EndsLocally (w : World) (a : Action) (r : RecordId) : Prop where
  told : TellsOnly (w.Doomed (· = r)) w (a.run w)
  /-- At every moment until the last task of this is done. -/
  contained : ∀ v, (a.run w).Works (w.waiting a) v →
    w.Contained a (w.Doomed (· = r)) (w.Touched (· = r)) v
  /-- The last task is done some time, in a world with nothing else to do when all is done. -/
  done : ∃ v, (a.run w).Works (w.waiting a) v ∧ v.pending = w.waiting a ∧
    (w.waiting a = [] → v = (a.run w).drain)

/-- Destruction in `w` stays with what owners lead to from where it starts, and with what orphans
do that nobody keeps. -/
structure StaysLocal (w : World) : Prop where
  rooted : ∀ r q, w.Doomed (· = r) q → ∃ o, (o = r ∨ w.IsOrphan o ∧ ¬ w.IsKept o ∧
    ∀ p, w.LooksAt p o → w.Doomed (· = r) p) ∧ ReflTransGen w.Owns o q
  ends : ∀ a r, w.Ends a r → w.DropsPlainly (· = r) → w.EndsLocally a r
  /-- The owners in some variables are reset one after the other. -/
  resets : ∀ is : List Nat, w.pending = [] → w.DropsPlainly (w.OwnedBy is) →
    w.Outlasts is (is.foldl emptied w)
  /-- What they own has no handles in it. -/
  leaves : ∀ is : List Nat, w.pending = [] → is.Nodup → (∀ i ∈ is, w.IsLeaf i) →
    w.Cleared is (is.foldl emptied w)

/-- In every reachable world, in the midst of destruction too: when an object starts to be
destroyed, or its owner goes, what is doomed is what it owns, and an orphan that nobody keeps and
what that owns. Where the finalizers of those look at nothing, all else stays as it was, as far as
the destruction goes, which comes to its end; what no destroyed object observes does not change at
all. So it is for the owners in any variables that are reset one after the other. Where those own
objects without handles, no other record changes at all, just their observers are not valid any
more, and each heap counts just those. -/
theorem destruction_stays_local (h : w.Reachable) : w.StaysLocal := by
  have hs := h.sound
  refine ⟨fun r q hq => hq.exists_root, fun a r ha hd => ?_, fun is hp => h.outlasts hp,
    fun is hp => h.cleared hp⟩
  have hsealed := sealed_doomed hd
  have hlooses := hs.looses ha
  obtain ⟨⟨ts, hstart⟩, -, htold⟩ := hsealed.ends hs (.root rfl) hlooses
  exact ⟨htold, fun v hv => hsealed.contained hs (.root rfl) hlooses hv,
    exists_works hstart.pending⟩

/-- A node observes an orphan, which owns another node; a number is observed. -/
def orphansHeir : World :=
  [.construct 0 ⟨.one, .node, .tracked⟩ (.single (.node 3 .plain)), .newSoft, .attach 0 (.soft 0),
    .construct 0 ⟨.one, .node, .tracked⟩ (.single (.node 2 .plain)), .newSoft, .attach 1 (.soft 1),
    .construct 0 ⟨.one, .node, .tracked⟩ (.single (.node 1 .plain)),
    .lend (.owner 1) .exclusive, .exchangeLink 0 0 0, .endBorrow 0,
    .lend (.owner 2) .exclusive, .exchangeBack 1 0 (.soft 1), .endBorrow 1,
    .newSoft, .attach 1 (.soft 2), .lend (.soft (.soft 2)) .shared, .discardOwner 1, .tick, .tick,
    .endBorrow 2, .discardSoft (.soft 2), .tick, .tick, .recover,
    .construct 0 ⟨.one, .int, .tracked⟩ (.single (.int 5)), .newSoft, .attach 3 (.soft 3)].foldl
    Action.run (start defaultGrant)

theorem dropsPlainly_of_all {S : RecordId → Prop}
    (h : ∀ rec ∈ w.records.toList, ∀ x ∈ rec.object.getD [], x.probes = false) :
    w.DropsPlainly S := by
  intro p _ items ho x hx
  obtain ⟨rec, hr, hobj⟩ := Option.bind_eq_some_iff.mp ho
  exact h rec (Array.mem_toList_iff.mpr (Array.mem_of_getElem? hr)) x (by rwa [hobj])

theorem dropsPlainly_orphansHeir {S : RecordId → Prop} : orphansHeir.DropsPlainly S :=
  dropsPlainly_of_all (by decide +kernel)

theorem waiting_orphansHeir : orphansHeir.waiting (.resetOwner 2) = [] := by decide +kernel

theorem ends_orphansHeir : orphansHeir.Ends (.resetOwner 2) 2 :=
  .inl (by unfold Begins; decide +kernel)

/-- The number is not doomed with the nodes. -/
theorem not_doomed_orphansHeir : ¬ orphansHeir.Doomed (· = 2) 3 := by
  have hlinks : ∀ rec ∈ orphansHeir.records.toList, ∀ x ∈ rec.object.getD [], ∀ q ∈ x.link,
      q < 3 := by decide +kernel
  have horphans : ∀ q < 4, orphansHeir.isAlive q = false → q < 3 := by decide +kernel
  have hall (q : RecordId) (hq : orphansHeir.Doomed (· = 2) q) : q < 3 := by
    induction hq with
    | root hq =>
      rw [show _ = 2 from hq]
      decide
    | owned _ _ hown =>
      obtain ⟨items, ho, x, hx, hl⟩ := hown
      obtain ⟨rec, hr, hobj⟩ := Option.bind_eq_some_iff.mp ho
      exact hlinks rec (Array.mem_toList_iff.mpr (Array.mem_of_getElem? hr)) x (by rwa [hobj]) _ hl
    | orphan horphan =>
      have hsize : orphansHeir.records.size = 4 := by decide +kernel
      exact horphans _ (hsize ▸ lt_of_object? horphan.2) horphan.1
  exact fun h => absurd (hall 3 h) (by decide)

theorem destruction_orphansHeir :
    (∀ v, ((Action.resetOwner 2).run orphansHeir).Works [] v →
      orphansHeir.Contained (.resetOwner 2) (orphansHeir.Doomed (· = 2))
        (orphansHeir.Touched (· = 2)) v) ∧
    orphansHeir.Unharmed ([2].foldl emptied orphansHeir) 3 ∧
    orphansHeir.Cleared [3] ([3].foldl emptied orphansHeir) := by
  have hlocal := destruction_stays_local (w := orphansHeir) (reachable_foldl _ _)
  have hends := hlocal.ends _ _ ends_orphansHeir dropsPlainly_orphansHeir
  refine ⟨fun v hv => hends.contained v (by rwa [waiting_orphansHeir]), ?_, ?_⟩
  · have houtlasts := hlocal.resets [2] waiting_orphansHeir dropsPlainly_orphansHeir
    refine houtlasts.spared.unharmed 3 fun hd => not_doomed_orphansHeir (hd.mono ?_)
    rintro r ⟨i, hi, hr⟩
    obtain rfl := List.mem_singleton.mp hi
    exact Option.some.inj (hr.symm.trans (by decide +kernel))
  · refine hlocal.leaves [3] waiting_orphansHeir (by simp) fun i hi => ?_
    obtain rfl := List.mem_singleton.mp hi
    have hguards : ∀ g ∈ orphansHeir.guards, g.2.record ≠ 3 := by decide +kernel
    exact ⟨3, [.int 5], by decide +kernel, fun ⟨g, hg, hr⟩ => hguards g hg hr, by decide +kernel,
      by simp [Item.IsBare, Item.link, Item.back, Item.panic?]⟩

/-- What an orphan owns is destroyed with it, though neither the object that is reset owns it nor is
it an orphan itself. -/
theorem destruction_passes_orphans :
    ¬ ∀ (w : World) (a : Action) (r : RecordId) (v : World) (q : RecordId),
      w.Reachable → w.Ends a r → w.DropsPlainly (· = r) → (a.run w).Works (w.waiting a) v →
      q ≠ r → ¬ TransGen w.Owns r q → ¬ (w.IsOrphan q ∧ ¬ w.IsKept q) →
      (w.unlinked a).Unharmed v q := by
  intro hclaim
  obtain ⟨v, hworks, -, hdrain⟩ := exists_works (w := (Action.resetOwner 2).run orphansHeir)
    (List.append_nil _).symm
  rw [hdrain rfl] at hworks
  have halive : orphansHeir.isAlive 0 = true := by decide +kernel
  have hunharmed := hclaim orphansHeir (.resetOwner 2) 2 _ 0 (reachable_foldl _ _) ends_orphansHeir
    dropsPlainly_orphansHeir (by rwa [waiting_orphansHeir]) (by decide) ?_ ?_
  · have hdead : ((Action.resetOwner 2).run orphansHeir).drain.isAlive 0 = false := by
      decide +kernel
    rw [hunharmed.isAlive] at hdead
    cases hdead.symm.trans halive
  · intro hpath
    obtain ⟨q, ⟨items, ho, x, hx, hl⟩, -⟩ := TransGen.head'_iff.mp hpath
    have hnone : ∀ items ∈ orphansHeir.object? 2, ∀ x ∈ items, x.link = none := by decide +kernel
    rw [hnone items ho x hx] at hl
    cases hl
  · rintro ⟨⟨hdead, -⟩, -⟩
    rw [halive] at hdead
    cases hdead

end World

end Custody

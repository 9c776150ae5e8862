import Custody.Proofs.Walks.Visits

/-! Traversing a table visits every entry once. -/

namespace Custody

namespace World

variable {w : World} {i j : Nat} {t : RecordId} {chains : List (List RecordId)}
  {rest : List RecordId} {k : Walk}

/-- A walk is at the end of its table exactly if it has nothing to visit. -/
theorem At.sameWalk (hi : w.At i t chains rest) (hj : w.At j t chains []) :
    w.sameWalk i j = .ok rest.isEmpty := by
  obtain ⟨k, hk, hstands, -⟩ := hi
  obtain ⟨e, he, hend, -⟩ := hj
  obtain ⟨a, ha, hat⟩ := Option.map_eq_some_iff.mp hstands.table
  obtain ⟨b, hb, hbt⟩ := Option.map_eq_some_iff.mp hend.table
  obtain ⟨hnode, hindex⟩ := hend.of_nil
  have htarget : sameTarget k.buckets.array e.buckets.array = true := by
    simp [sameTarget, ha, hb, hat, hbt]
  rw [World.sameWalk, walk_eq hk, walk_eq he, htarget, if_pos rfl, hnode]
  cases rest with
  | nil =>
    obtain ⟨hknode, hkindex⟩ := hstands.of_nil
    have heq : k.buckets.position.index = e.buckets.position.index :=
      UInt64.toNat_inj.mp (hkindex.trans hindex.symm)
    rw [hknode, heq]
    simp [sameSoft]
  | cons r rest =>
    obtain ⟨q, hq, -⟩ := Option.map_eq_some_iff.mp hstands.node
    rw [hq]
    simp [sameSoft, sameTarget]

theorem At.placed (h : w.At i t chains rest) :
    rest <:+ chains.flatten ∧
      ((w.walk i).node = none ↔ (w.walk i).buckets.position.isEnd = true) ∧
      (∀ k, (w.walk i).node = some k →
        ∃ rs, chains[(w.walk i).buckets.position.index.toNat]? = some rs ∧ k.record ∈ rs) := by
  obtain ⟨k, hk, hstands, -⟩ := h
  rw [walk_eq hk]
  exact ⟨hstands.suffix, hstands.node_eq_none_iff, fun _ => hstands.node_mem⟩

/-- At the end a walk watches nothing, and a step does nothing. -/
theorem At.at_end (h : w.At i t chains []) :
    (w.walk i).node = none ∧ (w.walk i).buckets.position.index.toNat = chains.length ∧
      (Op.stepWalk i).run.run w = (.ok (), w) := by
  obtain ⟨k, hk, hstands, -⟩ := h
  obtain ⟨hnode, hindex⟩ := hstands.of_nil
  obtain ⟨onward, hrun⟩ : ∃ onward : Op Unit, (Op.stepWalk i).run.run w =
      (if (w.walk i).node.isNone then pure () else onward).run.run w := ⟨_, rfl⟩
  rw [hrun, walk_eq hk, hnode]
  exact ⟨rfl, hindex, rfl⟩

end World

open World Op

/-- For every table, with chains of any lengths. A new walk has all entries to visit, one at the end
none. A step takes the first entry off what is to visit, and so does asking for the next entry,
which gives a handle to it, or none at the end. A copy that is used up gives handles to just what
was to visit, in order, and ends; so what comes of a new walk after `n` steps are all entries, each
once, but the first `n`. With nothing left to visit, and only then, the walk equals one at the end;
it watches nothing, it stands past the last bucket, and a step does nothing. It watches nothing
exactly if its position is the end, and else it watches an entry of the chain of its bucket. The
search for the next bucket that is not empty ends. All this holds unless a registration is refused
on the way. -/
theorem traversal_exact {w : World} {t : RecordId} {chains : List (List RecordId)} (h : w.Reachable)
    (hc : w.IsCalm) (ht : w.Table t chains) :
    chains.flatten.Nodup ∧
    (∀ j : Watch, j.record = t →
      (beginWalk (some j)).Attains w
        (fun i v => v.IsCalm ∧ Around i w v ∧ v.At i t chains chains.flatten) ∧
      (endWalk (some j)).Attains w
        (fun i v => v.IsCalm ∧ Around i w v ∧ v.At i t chains []) ∧
      ∀ n, Attains (do
          let i ← beginWalk (some j)
          steps i n
          nodes (← copyWalk i) (chains.flatten.length + 1)) w
        fun ns v => List.Forall₂ v.Watches ns (chains.flatten.drop n)) ∧
    (∀ i rest, w.At i t chains rest →
      (stepWalk i).Attains w
        (fun _ v => v.IsCalm ∧ Around i w v ∧ v.At i t chains rest.tail) ∧
      (nextNode i).Attains w
        (fun x v => v.IsCalm ∧ Around i w v ∧ v.At i t chains rest.tail ∧
          match rest.head? with
          | none => x = none
          | some r => ∃ n, x = some n ∧ v.Watches n r) ∧
      Attains (do nodes (← copyWalk i) (rest.length + 1)) w
        (fun ns v => v.IsCalm ∧ v.At i t chains rest ∧ List.Forall₂ v.Watches ns rest) ∧
      rest <:+ chains.flatten ∧
      (rest = [] → (w.walk i).node = none ∧
        (w.walk i).buckets.position.index.toNat = chains.length ∧
        (stepWalk i).run.run w = (.ok (), w)) ∧
      (∀ j, w.At j t chains [] → w.sameWalk i j = .ok rest.isEmpty) ∧
      ((w.walk i).node = none ↔ (w.walk i).buckets.position.isEnd = true) ∧
      ∀ k, (w.walk i).node = some k →
        ∃ rs, chains[(w.walk i).buckets.position.index.toNat]? = some rs ∧ k.record ∈ rs) ∧
    ∀ i v, (seekOn i).run.run v = (do
      if (← look (·.walk i)).buckets.position.isEnd then clearNode i
      else
        match ← inspect (·.bucketHead i) with
        | some r => rewatch r (.node i)
        | none => do
          act (.moveWalk i .next)
          seekOn i : Op Unit).run.run v := by
  refine ⟨h.sound.table_nodup ht, fun j hj => ⟨?_, ?_, fun n => ?_⟩, fun i rest hat => ?_,
    run_seekOn⟩
  · exact (attains_beginWalk h hc ht hj).mono fun _ _ _ hv => hv.2
  · exact (attains_endWalk h hc ht hj).mono fun _ _ _ hv => hv.2
  · refine (attains_beginWalk h hc ht hj).bind fun i u hu ⟨_, hcalm, haround, huat⟩ => ?_
    have htu := haround.alike.table ht
    have hur := h.reaches hu
    refine (attains_steps n hur hcalm htu huat).bind fun _ v hv ⟨hvcalm, haround', hvat⟩ => ?_
    refine (attains_copied (hur.reaches hv) hvcalm (haround'.alike.table htu) hvat ?_).mono
      fun _ _ _ hx => hx.2.2
    rw [List.length_drop]
    omega
  · obtain ⟨hsuffix, hnode, hmem⟩ := hat.placed
    exact ⟨attains_stepWalk h hc ht hat, attains_nextNode h hc ht hat,
      attains_copied h hc ht hat (Nat.lt_succ_self _), hsuffix, fun hrest => (hrest ▸ hat).at_end,
      fun j => hat.sameWalk, hnode, hmem⟩

/-- Three buckets: the first owns a chain of two entries, the second is empty, the third owns
one entry. -/
def bucketTable : World :=
  [.construct 0 ⟨.array, .bucket, .tracked⟩ ⟨3, fun _ => .bucket, none⟩,
    .construct 0 ⟨.one, .entry, .tracked⟩ (.single (.entry 10)),
    .construct 0 ⟨.one, .entry, .tracked⟩ (.single (.entry 11)),
    .construct 0 ⟨.one, .entry, .tracked⟩ (.single (.entry 12)),
    .lend (.owner 1) .exclusive, .exchangeLink 0 0 2, .endBorrow 0,
    .lend (.owner 0) .exclusive, .exchangeLink 1 0 1, .exchangeLink 1 2 3, .endBorrow 1].foldl
    Action.run (start defaultGrant)

/-- The entries of that table after one step. -/
def secondOnwards : Op (List Nat) := do
  let i ← beginWalk (some ⟨0, none⟩)
  steps i 1
  nodes (← copyWalk i) 4

theorem traversal_bucketTable :
    bucketTable.Table 0 [[1, 2], [], [3]] ∧ (secondOnwards.run.run bucketTable).1.isOk = true ∧
      secondOnwards.Attains bucketTable fun ns v => List.Forall₂ v.Watches ns [2, 3] := by
  have hsecond : bucketTable.Chain (some 2) [2] := .cons (i := .entry 11 none) (by decide) .nil
  have hfirst : bucketTable.Chain (some 1) [1, 2] :=
    .cons (i := .entry 10 (some 2)) (by decide) hsecond
  have hthird : bucketTable.Chain (some 3) [3] := .cons (i := .entry 12 none) (by decide) .nil
  have ht : bucketTable.Table 0 [[1, 2], [], [3]] :=
    ⟨[.bucket (some 1), .bucket none, .bucket (some 3)], by decide,
      .cons hfirst (.cons .nil (.cons hthird .nil))⟩
  have hc : bucketTable.IsCalm := ⟨by decide, by decide⟩
  have htraversal := traversal_exact (reachable_foldl _ _) hc ht
  exact ⟨ht, by decide +kernel, ((htraversal.2.1 ⟨0, none⟩ rfl).2.2 1)⟩

end Custody

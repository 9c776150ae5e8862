import Custody.Proofs.Chains.Building
import Mathlib.Algebra.BigOperators.Intervals

/-! The sum of a chain is taken by an observing handle that moves from node to node. Each step
registers with the next node and then leaves the one before it, so no object changes, and
the chain is afterwards as it was. Main result: `Op.run_sumOfChain`. -/

namespace Custody

theorem Record.IsNode.of_bare {rec new : Record} {h : HeapId} {n : Nat} {next : Owner} {prev : Soft}
    (hn : rec.IsNode h n next prev)
    (hb : new.bare = rec.bare) : new.IsNode h n next prev where
  heap := (congrArg Record.heap hb).trans hn.heap
  kind := (congrArg Record.kind hb).trans hn.kind
  orphaned := (congrArg Record.orphaned hb).trans hn.orphaned
  object := (congrArg Record.object hb).trans hn.object

namespace World

variable {u v w : World} {h : HeapId} {c n : Nat} {k : Watch} {prev s : Soft} {q r : RecordId}
  {rs : List RecordId} {rec : Record}

/-- There is room for one more observer of a record. -/
def HasRoom (w : World) (r : RecordId) : Prop := ∃ rec, w.records[r]? = some rec ∧ rec.HasRoom

theorem HasRoom.congr (hr : w.HasRoom r) (hv : v.records[r]? = w.records[r]?) : v.HasRoom r := by
  obtain ⟨rec, hrec, hroom⟩ := hr
  exact ⟨rec, hv.trans hrec, hroom⟩

/-- The object of a record can be read. -/
def IsReadable (w : World) (r : RecordId) : Prop := ∃ items, w.open? r .shared = .ok items

theorem IsReadable.alike (hr : w.IsReadable r) (ha : w.Alike v) : v.IsReadable r := by
  obtain ⟨items, hitems⟩ := hr
  exact ⟨items, (ha.open? r .shared).trans hitems⟩

/-- An object that can be read is alive. -/
theorem open?_of_isNode {next : Owner} (hr : w.IsReadable r) (hrec : w.records[r]? = some rec)
    (hn : rec.IsNode h n next prev) :
    w.open? r .shared = .ok [.node (Int64.ofNat n) .plain next prev] := by
  obtain ⟨items, hitems⟩ := hr
  obtain ⟨-, hobject⟩ := open?_eq_ok hitems
  rw [object?_of_record hrec, hn.object] at hobject
  rw [hitems, ← Option.some.inj hobject]

/-- Through a handle on a node its element is seen. -/
theorem inspect_of_isNode {next : Owner} (hw : w.Sound) (hs : w.softs[c]? = some (some k))
    (hr : w.IsReadable k.record) (hrec : w.records[k.record]? = some rec)
    (hn : rec.IsNode h n next prev) :
    w.inspect (.soft (.soft c)) .shared =
      .ok (k.record, [.node (Int64.ofNat n) .plain next prev]) := by
  have hopen := open?_of_isNode hr hrec hn
  have hheld : .watches k ∈ w.stakes := watches_mem_stakes.mpr (.inl ⟨.soft c, hs⟩)
  have hwatched := hw.watched_of_alive hheld (open?_eq_ok hopen).1
  rw [World.inspect, reach, soft, soft?, hs, Option.getD_some, hwatched]
  show (w.open? k.record .shared).bind _ = _
  rw [hopen]
  rfl

/-- What is a node still is one. -/
theorem Alike.isNode (ha : w.Alike v) {next : Owner} (hrec : w.records[r]? = some rec)
    (hn : rec.IsNode h n next prev) :
    ∃ new, v.records[r]? = some new ∧ new.IsNode h n next prev := by
  have hface : v.records[r]?.map Record.bare = some rec.bare := by
    rw [← Option.map_some (f := Record.bare), ← hrec]
    exact congrFun ha.face r
  obtain ⟨new, hnew, hbare⟩ := Option.map_eq_some_iff.mp hface
  exact ⟨new, hnew, hn.of_bare hbare⟩

theorem Linked.isAlive (hl : w.Linked h n prev rs) (hr : r ∈ rs) : w.isAlive r = true := by
  obtain ⟨rec, m, next, back, hrec, hnode⟩ := hl.node hr
  exact isAlive_iff.mpr ⟨rec, hrec, hnode.isAlive⟩

/-- The first node is not among those after it. -/
theorem Linked.head?_ne (hl : w.Linked h n prev rs) (hr : r ∈ rs.tail) : rs.head? ≠ some r := by
  cases rs with
  | nil => cases hr
  | cons q rs =>
    rintro hq
    obtain rfl := Option.some.inj hq
    exact (List.nodup_cons.mp hl.nodup).1 hr

/-- What is done with observing handles leaves chains as they are. -/
theorem Linked.alike (hl : w.Linked h n prev rs) (hv : v.Sound) (ha : w.Alike v) :
    v.Linked h n prev rs := by
  induction rs generalizing n prev with
  | nil => trivial
  | cons r rs ih =>
    obtain ⟨⟨rec, hrec, hnode⟩, hout, t, hvalid, hrest⟩ := hl
    obtain ⟨new, hnew, hnode'⟩ := ha.isNode hrec hnode
    refine ⟨⟨new, hnew, hnode'⟩, hout, t, fun hne => ?_, ih hrest⟩
    -- the next node holds the handle
    cases rs with
    | nil => exact absurd rfl hne
    | cons q rs =>
      obtain ⟨⟨old, hq, hold⟩, -⟩ := hrest
      obtain ⟨_, hq', hnext⟩ := ha.isNode hq hold
      have hheld : .watches ⟨r, some t⟩ ∈ v.stakes := watches_mem_stakes.mpr <| .inr <| .inl
        ⟨_, .inl ⟨_, Array.mem_of_getElem? hq', _, hnext.object, List.mem_singleton_self _⟩, rfl⟩
      rw [hv.isValid_eq hheld]
      exact isAlive_iff.mpr ⟨new, hnew, hnode'.isAlive⟩

end World

namespace Op

open World

variable {v w : World} {h : HeapId} {c n i : Nat} {k : Watch} {prev s : Soft} {o : Owner}
  {rs : List RecordId}

/-- An object is observed where there is room, or nothing is. -/
theorem run_watch_of_room (hw : w.Sound) (hc : w.IsCalm)
    (ho : ∀ q, o = some q → w.isAlive q = true ∧ w.HasRoom q) :
    ∃ u s, (inManner .insist (watch o)).run.run w = (.ok w.softs.size, u) ∧ w.Alike u ∧ u.IsCalm ∧
      s.map Watch.record = o ∧ u.softs = w.softs.push s ∧
      ∀ q, o ≠ some q → u.records[q]? = w.records[q]? := by
  cases o with
  | none =>
    exact ⟨w.newSoft.2, none, run_insist_of_ok rfl, ⟨rfl, rfl⟩,
      ⟨hc.pending, hc.unwinding⟩, rfl, rfl, fun _ _ => rfl⟩
  | some q =>
    obtain ⟨halive, rec, hrec, t, ht⟩ := ho q rfl
    obtain ⟨rec', hrec', ha⟩ := isAlive_iff.mp halive
    obtain rfl := Option.some.inj (hrec.symm.trans hrec')
    have hrun := run_watch_of_nextTicket hrec (hw.handles_ne_zero_of_alive hrec ha) ht
    have hface : (w.observed q rec.heap t).face = w.face :=
      face_modifyRecord (fun rec => rec.enrol.bare_acquire.trans rec.bare_enrol) q
    refine ⟨_, some ⟨q, some t⟩, hrun, ⟨hface, rfl⟩, ⟨hc.pending, hc.unwinding⟩, rfl, rfl,
      fun j hj => ?_⟩
    show (w.records.modify q _)[j]? = _
    rw [Array.getElem?_modify, if_neg fun he => hj (congrArg some he)]

/-- A handle moves on from an object to the next one. -/
theorem run_advance (hw : w.Reachable) (hc : w.IsCalm) (hs : w.softs[c]? = some (some k))
    (ha : w.isAlive k.record = true) (hl : w.isLent (.soft (.soft c)) = false)
    (ho : ∀ q, o = some q → w.isAlive q = true ∧ w.HasRoom q) :
    ∃ u v s, (inManner .insist (watch o)).run.run w = (.ok w.softs.size, u) ∧
      (dropSoft (.soft c)).run.run u = (.ok (), v) ∧ w.Alike v ∧ v.IsCalm ∧
      v.softs[w.softs.size]? = some s ∧ s.map Watch.record = o ∧
      ∀ q, k.record ≠ q → o ≠ some q → v.records[q]? = w.records[q]? := by
  obtain ⟨u, s, hwatch, halike, hcalm, hs', hsofts, hrest⟩ := run_watch_of_room hw.sound hc ho
  have hlt : c < w.softs.size := (Array.getElem?_eq_some_iff.mp hs).1
  have hsoft : u.soft (.soft c) = some k := by
    rw [soft, soft?, hsofts, getElem?_push_of_some hs, Option.getD_some]
  have hdrop := run_dropSoft (p := .soft c) (hw.reaches (reaches_of_run hwatch)) hcalm
    ((halike.isLent _).trans hl) fun j hj => by
      obtain rfl := Option.some.inj (hsoft.symm.trans hj)
      rw [halike.isAlive, ha]
  rw [hsoft] at hdrop
  have hkept : u.Alike ((u.vacate (.soft c)).letGo (some k)) := ⟨face_letGo (some k), rfl⟩
  refine ⟨u, _, s, hwatch, hdrop, halike.trans hkept, ⟨hcalm.pending, hcalm.unwinding⟩, ?_, hs',
    fun q hq hne => ?_⟩
  · show (u.softs.setIfInBounds c none)[w.softs.size]? = some s
    rw [hsofts, Array.getElem?_setIfInBounds_ne (Nat.ne_of_lt hlt), Array.getElem?_push_size]
  · rw [records_letGo_of_ne _ (by simpa using hq)]
    exact hrest q hne

theorem run_addWords {a : UInt32} (hsum : a.toNat + n < UInt32.size) :
    (addWords a (Int64.ofNat n)).run.run w = (.ok (UInt32.ofNat (a.toNat + n)), w) := by
  have hn : (Int64.ofNat n).toInt.toNat = n := by
    have hsize : UInt32.size = 4294967296 := rfl
    rw [Int64.toInt_ofNat_of_lt (by omega), Int.toNat_natCast]
  rw [addWords, hn, if_pos hsum]
  rfl

/-- Where there is no node, nothing is added. -/
theorem run_sumFrom_nil (fuel : Nat) (total : UInt32) (hw : w.Reachable) (hc : w.IsCalm)
    (hs : w.softs[c]? = some none) (hfree : w.isLent (.soft (.soft c)) = false) :
    ∃ v, (sumFrom fuel c total).run.run w = (.ok total, v) ∧ w.Alike v ∧ v.IsCalm := by
  have hsoft : w.soft (.soft c) = none := by rw [soft, soft?, hs, Option.getD_some]
  have hdrop := run_dropSoft (p := .soft c) hw hc hfree (by simp [hsoft])
  rw [hsoft] at hdrop
  have hend : (do
      dropSoft (.soft c)
      return total : Op UInt32).run.run w = (.ok total, w.vacate (.soft c)) := by
    rw [run_bind_of_ok _ hdrop]
    rfl
  refine ⟨w.vacate (.soft c), ?_, ⟨rfl, rfl⟩, ⟨hc.pending, hc.unwinding⟩⟩
  cases fuel with
  | zero => exact hend
  | succ fuel =>
    have hnull : w.inspect (.soft (.soft c)) .shared = .error .null := by
      rw [World.inspect, reach, hsoft]
      rfl
    rw [sumFrom, run_bind_of_ok _ (run_look _ w), hnull]
    exact hend

/-- One turn of the loop: the node's number is added and the handle moves on. -/
theorem run_sumFrom_node {fuel cursor : Nat} {total : UInt32} {u : World}
    (hi : w.inspect (.soft (.soft c)) .shared =
      .ok (r, [.node (Int64.ofNat n) .plain o prev]))
    (ht : total.toNat + n < UInt32.size)
    (hwatch : (inManner .insist (watch o)).run.run w = (.ok cursor, u))
    (hdrop : (dropSoft (.soft c)).run.run u = (.ok (), v)) :
    (sumFrom (fuel + 1) c total).run.run w =
      (sumFrom fuel cursor (UInt32.ofNat (total.toNat + n))).run.run v := by
  have hadvanced : (do
      let total ← addWords total (Int64.ofNat n)
      return (total, ← inManner .insist (watch o)) : Op (UInt32 × Nat)).run.run w =
      (.ok (UInt32.ofNat (total.toNat + n), cursor), u) := by
    rw [run_bind_of_ok _ (run_addWords ht), run_bind_of_ok _ hwatch]
    rfl
  rw [sumFrom, run_bind_of_ok _ (run_look _ w), hi]
  dsimp only
  rw [List.headD_cons]
  dsimp only [Item.value, Item.link]
  rw [run_bind_of_ok _ (run_thenClean hadvanced hdrop)]

/-- From a handle on the first of some nodes, their numbers are added. -/
theorem run_sumFrom {fuel : Nat} {total : UInt32} (hw : w.Reachable) (hc : w.IsCalm)
    (hl : w.Linked h n prev rs) (hs : w.softs[c]? = some s) (hhead : s.map Watch.record = rs.head?)
    (hfree : w.isLent (.soft (.soft c)) = false) (hread : ∀ r ∈ rs, w.IsReadable r)
    (hroom : ∀ r ∈ rs.tail, w.HasRoom r) (hfuel : rs.length ≤ fuel)
    (hsum : total.toNat + (List.range' n rs.length).sum < UInt32.size) :
    ∃ v, (sumFrom fuel c total).run.run w =
      (.ok (UInt32.ofNat (total.toNat + (List.range' n rs.length).sum)), v) ∧ w.Alike v ∧
        v.IsCalm := by
  induction rs generalizing w n prev c s fuel total with
  | nil =>
    obtain rfl := Option.map_eq_none_iff.mp hhead
    obtain ⟨v, hrun, hv⟩ := run_sumFrom_nil fuel total hw hc hs hfree
    exact ⟨v, by rw [hrun]; simp, hv⟩
  | cons r rs ih =>
    obtain ⟨k, rfl, hk⟩ := Option.map_eq_some_iff.mp hhead
    obtain ⟨fuel, rfl⟩ :=
      Nat.exists_eq_add_one.mpr (Nat.lt_of_lt_of_le (Nat.succ_pos rs.length) hfuel)
    obtain ⟨⟨rec, hrec, hnode⟩, hout, t, hvalid, hrest⟩ := id hl
    have hreadable := hread r List.mem_cons_self
    have hinspect := inspect_of_isNode hw.sound hs (hk.symm ▸ hreadable) (hk.symm ▸ hrec) hnode
    have halive : w.isAlive k.record = true := hk ▸ isAlive_iff.mpr ⟨rec, hrec, hnode.isAlive⟩
    rw [List.length_cons, List.range'_succ, List.sum_cons, ← Nat.add_assoc] at hsum ⊢
    have htotal : (UInt32.ofNat (total.toNat + n)).toNat = total.toNat + n :=
      UInt32.toNat_ofNat_of_lt' (by omega)
    have hnext (q : RecordId) (hq : rs.head? = some q) : w.isAlive q = true ∧ w.HasRoom q :=
      have hmem := List.mem_of_mem_head? hq
      ⟨hrest.isAlive hmem, hroom q hmem⟩
    obtain ⟨u, v, s, hwatch, hdrop, halike, hvc, hs', hmap, hothers⟩ :=
      run_advance hw hc hs halive hfree hnext
    have hvr := (hw.reaches (reaches_of_run hwatch)).reaches (reaches_of_run hdrop)
    have hfresh : w.isLent (.soft (.soft w.softs.size)) = false :=
      hw.tended.not_isLent (by simp [soft?])
    have hleft (q : RecordId) (hq : q ∈ rs.tail) : v.HasRoom q := by
      have hmem := List.mem_of_mem_tail hq
      exact (hroom q hmem).congr
        (hothers q (fun he => hout (by rwa [← hk, he])) (hrest.head?_ne hq))
    have hsum' :
        (UInt32.ofNat (total.toNat + n)).toNat + (List.range' (n + 1) rs.length).sum <
          UInt32.size := by
      rwa [htotal]
    obtain ⟨x, hrun, hx, hxc⟩ := ih hvr hvc (hrest.alike hvr.sound halike) hs' hmap
      ((halike.isLent _).trans hfresh)
        (fun q hq => (hread q (List.mem_cons_of_mem r hq)).alike halike) hleft
      (Nat.le_of_succ_le_succ hfuel) hsum'
    rw [htotal] at hrun
    refine ⟨x, ?_, halike.trans hx, hxc⟩
    rw [run_sumFrom_node hinspect (by omega) hwatch hdrop, hrun]

theorem sum_range' (n : Nat) : (List.range' 0 n).sum = n * (n - 1) / 2 := by
  rw [← List.range_eq_range', ← Finset.sum_range_id, Finset.sum_eq_multiset_sum, Multiset.map_id',
    Finset.range_val]
  exact (Multiset.sum_coe _).symm

/-- The sum of the numbers of a chain, wherever its nodes can be read and registrations are
granted. -/
theorem run_sumOfChain (hw : w.Reachable) (hc : w.IsCalm) (hl : w.Linked h 0 prev rs)
    (hi : w.owner i = rs.head?) (hread : ∀ r ∈ rs, w.IsReadable r) (hroom : ∀ r ∈ rs, w.HasRoom r)
    (hsum : rs.length * (rs.length - 1) / 2 < UInt32.size) :
    ∃ v, (sumOfChain i).run.run w = (.ok (UInt32.ofNat (rs.length * (rs.length - 1) / 2)), v) ∧
      w.Alike v ∧ v.IsCalm ∧ v.Linked h 0 prev rs := by
  have hhead (q : RecordId) (hq : rs.head? = some q) : w.isAlive q = true ∧ w.HasRoom q :=
    have hmem := List.mem_of_mem_head? hq
    ⟨hl.isAlive hmem, hroom q hmem⟩
  obtain ⟨u, s, hwatch, halike, huc, hmap, hsofts, hothers⟩ := run_watch_of_room hw.sound hc hhead
  have hur := hw.reaches (reaches_of_run hwatch)
  have hlu := hl.alike hur.sound halike
  have hfuel : rs.length ≤ u.records.size + 1 := by
    have hsub : rs ⊆ List.range u.records.size := fun q hq => List.mem_range.mpr (hlu.lt_size hq)
    have hle := (hl.nodup.subperm hsub).length_le
    rw [List.length_range] at hle
    exact Nat.le_succ_of_le hle
  have hfresh : w.isLent (.soft (.soft w.softs.size)) = false :=
    hw.tended.not_isLent (by simp [soft?])
  have hleft (q : RecordId) (hq : q ∈ rs.tail) : u.HasRoom q := by
    exact (hroom q (List.mem_of_mem_tail hq)).congr (hothers q (hl.head?_ne hq))
  rw [← sum_range'] at hsum ⊢
  have hzero : (0 : UInt32).toNat + (List.range' 0 rs.length).sum < UInt32.size := by
    simpa using hsum
  obtain ⟨v, hrun, hkept, hvc⟩ :=
    run_sumFrom hur huc hlu (by rw [hsofts, Array.getElem?_push_size]) hmap
    ((halike.isLent _).trans hfresh) (fun q hq => (hread q hq).alike halike) hleft hfuel hzero
  have hvr := hur.reaches (reaches_of_run hrun)
  refine ⟨v, ?_, halike.trans hkept, hvc, hl.alike hvr.sound (halike.trans hkept)⟩
  rw [sumOfChain, run_bind_of_ok _ (run_look _ w), hi, run_bind_of_ok _ hwatch,
    run_bind_of_ok _ (run_look _ u), hrun]
  simp

end Op

end Custody

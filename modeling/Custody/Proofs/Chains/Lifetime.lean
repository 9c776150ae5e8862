import Custody.Proofs.Chains.Outsiders
import Custody.Proofs.Chains.Summing
import Custody.Proofs.Memory.Remains

/-! The life of a chain: it is built, summed, and destroyed with the owner of its head. Main
result: `chain_lifetime`. -/

namespace Custody

namespace World

variable {u v w : World} {h : HeapId} {n i : Nat} {prev : Soft} {r : RecordId} {rs : List RecordId}

/-- Where no guard is on a chain, its nodes can be destroyed. -/
theorem Sound.isReady (hw : w.Sound) (hl : w.Linked h n prev rs) (hr : r ∈ rs)
    (hg : ¬ w.IsGuarded r) : w.IsReady r where
  free := by
    rw [← Bool.not_eq_true, hw.isBorrowed_iff]
    exact hg
  record rec hrec := by
    obtain ⟨rec', m, next, back, hrec', hnode⟩ := hl.node hr
    obtain rfl := Option.some.inj (hrec.symm.trans hrec')
    exact ⟨(hw.enrolled hrec).slots, (hw.agrees hrec).housed (by rw [hnode.object]; rfl)⟩

/-- Nobody borrows through the owner of an object that no guard is on. -/
theorem Tended.not_isLent_of_free (hw : w.Tended) (hi : w.owner i = rs.head?)
    (hg : ∀ r ∈ rs, ¬ w.IsGuarded r) : w.isLent (.owner i) = false := by
  rw [← Bool.not_eq_true]
  intro hl
  obtain ⟨g, hmem, hsource⟩ := List.any_eq_true.mp hl
  have howner := hw g hmem
  rw [of_decide_eq_true hsource, referent, hi] at howner
  exact hg _ (List.mem_of_mem_head? howner) ⟨g, hmem, rfl⟩

theorem IsIdle.isReadable (hi : w.IsIdle r) (hl : w.Linked h n prev rs) (hr : r ∈ rs) :
    w.IsReadable r := by
  obtain ⟨rec, hrec, hfree, -⟩ := hi
  obtain ⟨rec', m, next, back, hrec', hnode⟩ := hl.node hr
  obtain rfl := Option.some.inj (hrec.symm.trans hrec')
  refine ⟨[.node (Int64.ofNat m) .plain next back], ?_⟩
  simp only [open?, hrec, Record.open?, Record.alive, hnode.orphaned, hnode.object, hfree]
  rfl

theorem IsIdle.hasRoom (hi : w.IsIdle r) : w.HasRoom r := by
  obtain ⟨rec, hrec, -, hroom⟩ := hi
  exact ⟨rec, hrec, hroom⟩

theorem Sound.not_isGuarded (hw : w.Sound) (hi : w.IsIdle r) : ¬ w.IsGuarded r := by
  obtain ⟨rec, hrec, hfree, -⟩ := hi
  rw [IsGuarded, ← hw.isBorrowed_iff, isBorrowed, hrec]
  simp [hfree, Borrow.none, Borrow.isHeld]

/-- A chain is known by its head. -/
theorem Linked.unique {prev' : Soft} {qs : List RecordId} (hl : w.Linked h n prev rs)
    (hl' : w.Linked h n prev' qs) (hhead : rs.head? = qs.head?) : rs = qs := by
  induction rs generalizing n prev prev' qs with
  | nil => exact (List.head?_eq_none_iff.mp hhead.symm).symm
  | cons r rs ih =>
    cases qs with
    | nil => cases hhead
    | cons q qs =>
      obtain rfl := Option.some.inj hhead
      obtain ⟨⟨rec, hrec, hnode⟩, -, t, -, hrest⟩ := hl
      obtain ⟨⟨rec', hrec', hnode'⟩, -, t', -, hrest'⟩ := hl'
      obtain rfl := Option.some.inj (hrec.symm.trans hrec')
      have hnext : rs.head? = qs.head? ∧ prev = prev' := by
        simpa using hnode.object.symm.trans hnode'.object
      rw [ih hrest hrest' hnext.1]

/-- `v` is `w` after the chain in `rs` went. -/
structure Cascades (w : World) (h : HeapId) (rs : List RecordId) (v : World) : Prop where
  calm : v.IsCalm
  /-- Each node is destroyed once, one after the other. -/
  log : v.log = reportsFrom 0 rs.length ++ w.log
  /-- Objects and blocks are gone, and no handle is valid. -/
  gone : ∀ r ∈ rs, v.IsGone r
  others : ∀ q ∉ rs, v.records[q]? = w.records[q]?
  /-- A block comes back for each node, and just the observers outside of the chain are told. -/
  absorbs : ∀ heap, w.heaps[h]? = some heap →
    ∃ new, v.heaps[h]? = some new ∧ heap.Absorbs rs.length (w.outsiders rs).card new
  heaps : ∀ q, q ≠ h → v.heaps[q]? = w.heaps[q]?

end World

namespace Op

open World

variable {v w : World} {h : HeapId} {n i : Nat} {rs : List RecordId}

/-- The owner of the head of a chain goes, where no guard is on the chain. -/
theorem run_dropOwner_of_linked (hw : w.Reachable) (hc : w.IsCalm) (hl : w.Linked h 0 none rs)
    (hi : w.owner i = rs.head?) (hg : ∀ r ∈ rs, ¬ w.IsGuarded r)
    (hk : ∀ heap, w.heaps[h]? = some heap → heap.config.keeps = true) :
    ∃ v, (dropOwner i).run.run w = (.ok (), v) ∧ w.Cascades h rs v := by
  have hlent := hw.tended.not_isLent_of_free hi hg
  have hlive := hw.sound.sum_liveObservers hc.pending hl
  cases rs with
  | nil =>
    have hnone : (w.outsiders []).card = 0 := by simpa using hlive.symm
    exact ⟨w, run_dropOwner_of_none hc hi hlent, hc, rfl, by simp, fun _ _ => rfl,
      fun heap hheap => ⟨heap, hheap, hnone.symm ▸ .refl heap⟩, fun _ _ => rfl⟩
  | cons r rs =>
    obtain ⟨u, hu⟩ : ∃ u, u = w.setOwner i none := ⟨_, rfl⟩
    have hrecords : u.records = w.records := by rw [hu]; rfl
    have hready (q) (hq : q ∈ r :: rs) : u.IsReady q :=
      (hw.sound.isReady hl hq (hg q hq)).congr (by rw [hrecords])
    have hfalls :=
      falls (by rw [hu]; exact hc.pending) (hl.congr fun _ _ => by rw [hrecords]) hready (by simp)
    have hdiscard : w.discardOwner i = u.schedule [.dropOwner (some r)] := by
      rw [discardOwner, hlent, if_neg Bool.false_ne_true, hi, hu]
      rfl
    have hunwinding : (w.discardOwner i).drain.unwinding = none := by
      rw [hdiscard, hfalls.unwinding, hu]
      exact hc.unwinding
    have hrun : (dropOwner i).run.run w = (.ok (), (w.discardOwner i).drain) := by
      have hquiesce : (dropOwner i).run.run w = quiesce.run.run (w.discardOwner i) := rfl
      rw [hquiesce, run_quiesce, hunwinding]
    have hreach := hw.reaches (reaches_of_run hrun)
    refine ⟨_, hrun, ⟨pending_drain _, hunwinding⟩, ?_, fun q hq => ?_, fun q hq => ?_,
      fun heap hheap => ?_, fun q hq => ?_⟩
    · rw [hdiscard, hfalls.log, hu]
      rfl
    · obtain ⟨rec, hrec, hblock⟩ := hfalls.returned q hq
      exact hreach.isGone (by rw [hdiscard]; exact hrec) hblock
    · rw [hdiscard, hfalls.others q hq, letGo, hrecords]
    · obtain ⟨new, k, hnew, habsorbs, hsum⟩ :=
        hfalls.absorbs heap (by rw [hu]; exact hheap) (hk heap hheap)
      have hsame : (r :: rs).map u.liveObservers = (r :: rs).map w.liveObservers := by
        rw [hu]
        rfl
      rw [hsame, hlive] at hsum
      exact ⟨new, by rw [hdiscard]; exact hnew, Nat.add_right_cancel hsum ▸ habsorbs⟩
    · rw [hdiscard, hfalls.heaps q hq, hu]
      rfl

end Op

open World Op

namespace World

/-- Variable `i` of `v` owns the chain in `rs` of `n` new nodes, which are numbered from zero on,
each owned by the one before it, which it observes. -/
structure HasChain (v : World) (h : HeapId) (c : Config) (n i : Nat)
    (rs : List RecordId) : Prop where
  calm : v.IsCalm
  length : rs.length = n
  linked : v.Linked h 0 none rs
  owner : v.owner i = rs.head?
  readable : ∀ r ∈ rs, v.IsReadable r
  room : ∀ r ∈ rs, v.HasRoom r
  free : ∀ r ∈ rs, ¬ v.IsGuarded r
  heap : ∃ heap, v.heaps[h]? = some heap ∧ (Heap.fresh c).Supplied n heap

/-- What becomes of the chain in `rs` that variable `i` of `u` owns. -/
structure ChainEnds (u : World) (h : HeapId) (n i : Nat) (rs : List RecordId) : Prop where
  sum : (∀ r ∈ rs, u.IsReadable r ∧ u.HasRoom r) →
    ∃ x, (Op.sumOfChain i).run.run u = (.ok (UInt32.ofNat (n * (n - 1) / 2)), x) ∧
      x.Linked h 0 none rs
  drop : (∀ r ∈ rs, ¬ u.IsGuarded r) →
    ∃ x, (Op.dropOwner i).run.run u = (.ok (), x) ∧ u.Cascades h rs x ∧
      ∀ heap, u.heaps[h]? = some heap → heap.stats.liveBlocks = n → heap.stats.keptBlocks = 0 →
        ∃ new, x.heaps[h]? = some new ∧ new.stats.liveBlocks = 0 ∧ new.stats.keptBlocks = n

end World

/-- Chains on a heap that keeps blocks and has not been used, of any length for which the sum of the
numbers is a word. A chain of `n` nodes is built: the nodes are numbered from zero on, each owns the
next one and is observed by it through a valid handle, and the heap has `n` blocks out. As long as
the chain is there, whatever else happens, its sum is `n * (n - 1) / 2` where its nodes can be read
and have room for an observer, as they have at first. Where no guard is on it, dropping the owner of
the head destroys each node once: `n` blocks come back and are kept, and the observers that are told
are just those that observe the chain from outside; no handle on a node is valid then. -/
theorem chain_lifetime {w : World} {h : HeapId} {c : Config} (n : Nat) (hw : w.Reachable)
    (hc : w.IsCalm) (hh : w.heaps[h]? = some (.fresh c)) (hk : c.keeps = true)
    (hg : nodeBytes ≤ w.arena.grant) (hn : n * (n - 1) / 2 < UInt32.size) :
    ∃ i rs v, (newChain h n).run.run w = (.ok i, v) ∧ v.HasChain h c n i rs ∧
      ∀ u, v.Reaches u → u.IsCalm → u.Linked h 0 none rs → u.owner i = rs.head? →
        u.ChainEnds h n i rs := by
  obtain ⟨i, rs, v, hrun, hvc, rfl, hv, hheaps⟩ := run_newChain (h := h) n hw hc hg
  obtain ⟨heap, hheap, hsupplied⟩ := hheaps _ hh
  have hvr := hw.reaches (reaches_of_run hrun)
  refine ⟨i, rs, v, hrun,
    { calm := hvc
      length := rfl
      linked := hv.linked
      owner := by rw [owner, hv.owner, Option.getD_some]
      readable := fun r hr => (hv.idle r hr).isReadable hv.linked hr
      room := fun r hr => (hv.idle r hr).hasRoom
      free := fun r hr => hvr.sound.not_isGuarded (hv.idle r hr)
      heap := ⟨heap, hheap, hsupplied⟩ },
    fun u hu huc hl hi => ⟨fun hread => ?_, fun hfree => ?_⟩⟩
  · obtain ⟨x, hsum, -, -, hx⟩ :=
      run_sumOfChain (hvr.reaches hu) huc hl hi (fun r hr => (hread r hr).1)
      (fun r hr => (hread r hr).2) hn
    exact ⟨x, hsum, hx⟩
  · have hkeeps (heap' : Heap) (hheap' : u.heaps[h]? = some heap') : heap'.config.keeps = true := by
      obtain ⟨new, hnew, hconfig⟩ := hu.config hheap
      obtain rfl := Option.some.inj (hnew.symm.trans hheap')
      rw [hconfig, hsupplied.config]
      exact hk
    obtain ⟨x, hdrop, hx⟩ := run_dropOwner_of_linked (hvr.reaches hu) huc hl hi hfree hkeeps
    refine ⟨x, hdrop, hx, fun heap' hheap' hlive hkept => ?_⟩
    obtain ⟨new, hnew, habsorbs⟩ := hx.absorbs heap' hheap'
    exact ⟨new, hnew, by rw [habsorbs.liveBlocks, hlive, Nat.sub_self],
      by rw [habsorbs.keptBlocks, hkept, Nat.zero_add]⟩

/-- A chain of three nodes. -/
def threeNodes : World := ((newChain 0 3).run.run (start defaultGrant)).2

/-- The last node of that chain is observed twice from outside. -/
def observeLast : Op Unit := do
  let _ ← watch (some 0)
  let _ ← watch (some 0)

def observedNodes : World := (observeLast.run.run threeNodes).2

theorem chain_lifetime_threeNodes :
    ((newChain 0 3).run.run (start defaultGrant)).1 = .ok 5 ∧
      observedNodes.Linked 0 0 none [2, 1, 0] ∧
      (observedNodes.outsiders [2, 1, 0]).card = 2 ∧
      ∃ x, (dropOwner 5).run.run observedNodes = (.ok (), x) ∧
      observedNodes.Cascades 0 [2, 1, 0] x := by
  obtain ⟨i, rs, v, hrun, hchain, hlater⟩ :=
    chain_lifetime (w := start defaultGrant) (h := 0) (c := .standard) 3 ⟨_, .refl⟩
      ⟨rfl, rfl⟩ rfl rfl (by decide) (by decide)
  have hfirst : ((newChain 0 3).run.run (start defaultGrant)).1 = .ok 5 := rfl
  obtain rfl : v = threeNodes := by rw [threeNodes, hrun]
  obtain rfl : i = 5 := by
    rw [hrun] at hfirst
    exact Except.ok.inj hfirst
  have hlinked (u : World) (hu : u = threeNodes ∨ u = observedNodes) :
      u.Linked 0 0 none [2, 1, 0] := by
    rcases hu with rfl | rfl <;>
    exact ⟨⟨_, rfl, rfl, rfl, rfl, rfl⟩, by decide, ⟨0, 0⟩, fun _ => rfl,
      ⟨_, rfl, rfl, rfl, rfl, rfl⟩, by decide, ⟨0, 0⟩, fun _ => rfl,
      ⟨_, rfl, rfl, rfl, rfl, rfl⟩, by decide, ⟨0, 0⟩, fun hne => absurd rfl hne, trivial⟩
  have hobserved := hlinked observedNodes (.inr rfl)
  obtain rfl : rs = [2, 1, 0] :=
    hchain.linked.unique (hlinked threeNodes (.inl rfl)) (hchain.owner.symm.trans rfl)
  have hreach : threeNodes.Reaches observedNodes := reaches_of_run (a := observeLast) rfl
  have hguards : observedNodes.guards = [] := rfl
  obtain ⟨x, hdrop, hx, -⟩ :=
      (hlater observedNodes hreach ⟨rfl, rfl⟩ hobserved rfl).drop fun r _ => by
    simp [IsGuarded, hguards]
  exact ⟨hfirst, hobserved, rfl, x, hdrop, hx⟩

end Custody

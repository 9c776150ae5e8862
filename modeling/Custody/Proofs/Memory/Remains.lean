import Custody.Proofs.Destruction
import Custody.Proofs.Ledger.Sources

/-! Quarantined memory is left alone. A block that comes back enters a quarantine just if
whoever gives it back wants that and the heap keeps blocks; from then on no action changes
it, until the quarantine of that heap is emptied. No block that is still out has an address
in common with it, so what handles, guards and raw blocks can write to is elsewhere. Main
definitions: `World.Releases`, `World.peek?`, `World.LeavesKept`; main result:
`World.kept_left_alone`. -/

namespace Custody

/-! ### Reading -/

theorem Block.Apart.not_covers {b c : Block} (h : b.Apart c) {address : Nat}
    (hb : b.covers address = true) : c.covers address = false := by
  have hlow : c.extent.first ≤ c.extent.past := Nat.le_add_right _ _
  simp only [covers, Bool.and_eq_true, decide_eq_true_eq, Bool.and_eq_false_iff,
    decide_eq_false_iff_not] at hb ⊢
  simp only [Apart, Extent.Apart, extent] at h
  omega

/-- Where blocks are apart, an address of one of them is read in that one. -/
theorem Quarantine.byteIn_of_mem {zs : List Block} (hzs : zs.Pairwise Block.Apart) {z : Block}
    (hz : z ∈ zs) {address : Nat} (ha : z.covers address = true) :
    ∃ next, byteIn address zs = z.byte? next (address - z.base) := by
  induction zs with
  | nil => cases hz
  | cons y rest ih =>
    obtain ⟨hy, hrest⟩ := List.pairwise_cons.mp hzs
    obtain rfl | hz := List.mem_cons.mp hz
    · exact ⟨_, if_pos ha⟩
    · obtain ⟨next, hnext⟩ := ih hrest hz
      have hmiss : y.covers address = false := Block.Apart.not_covers (hy z hz).symm ha
      refine ⟨next, ?_⟩
      rw [byteIn, if_neg (by simp [hmiss]), hnext]

namespace Heap

variable {heap : Heap} {r : Request}

theorem formed_prepare {b : Block} (hb : b.Formed) : (heap.prepare b).Formed := by
  unfold prepare
  split_ifs
  · exact hb.holding _
  · exact hb

/-- What a kept payload reads as: poison, or what it held when it came in. -/
theorem get?_prepare (b : Block) (i : Nat) : (heap.prepare b).contents.get? i =
    if heap.config.poisons then some Block.poison else b.contents.get? i := by
  unfold prepare
  split_ifs <;> rfl

theorem prepare_payload (b : Block) : (heap.prepare b).payload = b.payload := by
  unfold prepare
  split_ifs <;> rfl

theorem prepare_payloadSize (b : Block) : (heap.prepare b).payloadSize = b.payloadSize := by
  unfold prepare
  split_ifs <;> rfl

theorem blocks_of_isMemo (hr : r.IsMemo) :
    (heap.obey r).quarantine.blocks = heap.quarantine.blocks := by
  cases r with
  | allocated | release | reclaim => cases hr
  | registered | invalidated => rfl
  | setDetecting on =>
    rw [quarantine_obey]
    obtain ⟨-, hs⟩ | ⟨-, hs⟩ := Quarantine.setDetecting_cases (q := heap.quarantine) on <;>
      simp [passed, Quarantine.obey, hs]

theorem blocks_obey_release (b : Block) (keep : Bool) :
    (heap.obey (.release b keep)).quarantine.blocks =
      if keep && heap.config.keeps then heap.prepare b :: heap.quarantine.blocks
      else heap.quarantine.blocks := by
  simp only [obey, release]
  split_ifs <;> rfl

end Heap

namespace World

variable {tidy : Prop} {u v w : World} {h k : HeapId} {a : Action} {b z : Block} {heap : Heap}
  {wanted : Bool} {i : Nat}

/-- The blocks that heap `h` keeps, the latest first. -/
def kept (w : World) (h : HeapId) : List Block :=
  (w.heaps[h]?.map fun heap => heap.quarantine.blocks).getD []

/-- The byte that is read at an address of a block that heap `h` keeps, where it is known. -/
def peek? (w : World) (h : HeapId) (address : Nat) : Option UInt8 :=
  w.heaps[h]?.bind fun heap => heap.quarantine.byte? address

theorem kept_of_heap (hh : w.heaps[h]? = some heap) : w.kept h = heap.quarantine.blocks := by
  simp [kept, hh]

theorem exists_heap_of_kept (hz : z ∈ w.kept h) :
    ∃ heap, w.heaps[h]? = some heap ∧ z ∈ heap.quarantine.blocks := by
  cases hh : w.heaps[h]? with
  | none => simp [kept, hh] at hz
  | some heap => exact ⟨heap, rfl, kept_of_heap hh ▸ hz⟩

theorem Laid.pairwise_kept (hw : w.Laid) (h : HeapId) : (w.kept h).Pairwise Block.Apart := by
  rw [List.pairwise_iff_forall_sublist]
  intro b c hbc
  obtain ⟨heap, hh, -⟩ := exists_heap_of_kept (hbc.subset List.mem_cons_self)
  rw [kept_of_heap hh] at hbc
  have hpair : {b.extent, c.extent} ≤ Extent.ofHeap heap :=
    Multiset.coe_le.mpr (hbc.map Block.extent).subperm
  apply hw.apart
  rw [extents_eq]
  exact (hpair.trans (le_tally (by simpa using hh))).trans (Multiset.le_add_left _ _)

/-! ### Raw blocks -/

theorem blocks_run_of_variables {a : Action} (ha : a.concern = .variables) :
    (a.run w).blocks = w.blocks := by
  cases a with
  | raise p => exact blocks_of_hands (hands_raise p)
  | discardSoft p =>
    simp only [Action.run, discardSoft]
    split_ifs
    · rfl
    · cases p <;> rfl
  | scrapNode x f j p =>
    simp only [Action.run, scrapNode]
    split_ifs
    · cases p <;> rfl
    · rfl
  | swapSofts p q =>
    simp only [Action.run, swapSofts]
    (repeat' split) <;> first | rfl | (cases p <;> cases q <;> rfl)
  | swapOwners | discardOwner | recover =>
    simp only [Action.run, swapOwners, discardOwner, recover]
    (repeat' split) <;> rfl
  | newOwner | newSoft | scrap | narrow | moveScan | moveWalk | clearLog => rfl
  | _ => cases ha

/-- What became of the raw blocks: no action but these three changes any. -/
theorem blocks_run (ha : ∀ h l n, a ≠ .allot h l n) (hf : ∀ i byte, a ≠ .fill i byte)
    (hg : ∀ i h, a ≠ .giveBack i h) : (a.run w).blocks = w.blocks := by
  have hwatch (r : RecordId) : (w.watch r).2.blocks = w.blocks := blocks_of_hands (hands_watch r)
  cases a with
  | allot h l n => exact absurd rfl (ha h l n)
  | fill i byte => exact absurd rfl (hf i byte)
  | giveBack i h => exact absurd rfl (hg i h)
  | tick => exact blocks_of_hands hands_tick
  | newScan r j => exact newScan_frame (·.blocks = w.blocks) r j rfl hwatch fun _ _ hv => hv
  | newWalk r j => exact newWalk_frame (·.blocks = w.blocks) r j rfl hwatch fun _ _ hv => hv
  | attach r p =>
    refine attach_frame (·.blocks = w.blocks) r p rfl (hwatch r) ?_
    intro _ s hv
    cases p <;> exact hv
  | construct h k p =>
    simp only [Action.run, construct_eq]
    split
    · rfl
    · split
      · rfl
      · rename_i b v hv
        obtain ⟨arena, -, rfl⟩ := allocate_eq_ok hv
        split
        · rw [blocks_of_hands (hands_raise _)]
          rfl
        · rfl
  | resetOwner | resetLink =>
    exact run_of_resets (·.blocks = w.blocks) rfl rfl (fun _ => rfl) (fun _ _ _ _ _ _ => rfl)
      fun _ r hu => (blocks_of_hands (hands_demolish r)).trans hu
  | exchangeBack g j p =>
    simp only [Action.run, exchangeBack]
    (repeat' split) <;> first | rfl | (cases p <;> rfl)
  | openHeap | setDetecting | put | exchangeLink | lend | duplicate | endBorrow =>
    simp only [Action.run, openHeap, setDetecting, put, exchangeLink, lend, duplicate, endBorrow]
    (repeat' split) <;> rfl
  | reclaim => rfl
  | _ => exact blocks_run_of_variables rfl

theorem formed_loose_run (hw : ∀ i l, w.loose? i = some l → l.block.Formed) {l : Loose}
    (hl : (a.run w).loose? i = some l) : l.block.Formed := by
  cases a with
  | allot h payload n =>
    simp only [Action.run, allot] at hl
    split at hl
    · exact hw i l hl
    · rename_i b v hv
      obtain ⟨arena, ha, rfl⟩ := allocate_eq_ok hv
      rw [loose?, Array.getElem?_push] at hl
      split_ifs at hl
      · obtain rfl := Option.some.inj hl
        exact Arena.formed_of_allocate ha
      · exact hw i l hl
  | fill j byte =>
    simp only [Action.run, fill, loose?, Array.getElem?_modify] at hl
    split_ifs at hl
    · cases hj : w.blocks[i]? with
      | none => simp [hj] at hl
      | some o =>
        obtain ⟨old, rfl, rfl⟩ :
            ∃ old, o = some old ∧ { old with block := old.block.fill byte } = l := by
          simpa [hj] using hl
        exact (hw i old (by rw [loose?, hj]; rfl)).holding _
    · exact hw i l hl
  | giveBack j h =>
    simp only [Action.run, giveBack] at hl
    split at hl
    · exact hw i l hl
    · simp only [loose?, modifyHeap, Array.getElem?_setIfInBounds] at hl
      split_ifs at hl
      · cases hl
      · cases hl
      · exact hw i l hl
  | _ =>
    rw [loose?, blocks_run (by simp) (by simp) (by simp)] at hl
    exact hw i l hl

theorem Reachable.formed_loose (hw : w.Reachable) {l : Loose} (hl : w.loose? i = some l) :
    l.block.Formed := by
  obtain ⟨grant, hw⟩ := hw
  induction hw generalizing i l with
  | refl => simp [start, loose?] at hl
  | step a _ ih => exact formed_loose_run (fun _ _ => ih) hl

/-! ### Releases -/

/-- A block that comes back to heap `h`, and whether whoever gives it back wants it kept. -/
inductive Releases (w : World) : Action → HeapId → Block → Bool → Prop where
  /-- The destruction of an object is over. Its block is to be kept if the allocation is
  tracked. -/
  | object {r : RecordId} {rec : Record} {b : Block} {rest : List Task} :
    w.pending = .retire r :: rest → w.records[r]? = some rec → rec.block = some b →
    Releases w .tick rec.heap b rec.kind.mode.isTracked
  /-- The program gives a raw block back. -/
  | raw {i : Nat} {l : Loose} (h : HeapId) :
    w.loose? i = some l → Releases w (.giveBack i h) h l.block true
  /-- The elements of an array that was never finished are destroyed. -/
  | unfinished {h : HeapId} {b : Block} {rest : List Task} :
    w.pending = .abandon h b :: rest → Releases w .tick h b false

theorem releases_iff : w.Releases a h b wanted ↔ w.movement a = some (h, .release b wanted) := by
  constructor
  · rintro (⟨hp, hr, hb⟩ | ⟨-, hl⟩ | hp)
    · simp [movement, hp, release?, hr, hb]
    · simp [movement, hl]
    · simp [movement, hp]
  · intro hm
    cases a with
    | tick =>
      simp only [movement] at hm
      split at hm
      · rename_i r rest hp
        obtain ⟨rec, hr, hrec⟩ := Option.bind_eq_some_iff.mp hm
        obtain ⟨c, hc, heq⟩ := Option.map_eq_some_iff.mp hrec
        obtain ⟨rfl, hreq⟩ := Prod.mk.inj heq
        obtain ⟨rfl, rfl⟩ := Heap.Request.release.inj hreq
        exact .object hp hr hc
      · rename_i k c rest hp
        obtain ⟨rfl, hreq⟩ := Prod.mk.inj (Option.some.inj hm)
        obtain ⟨rfl, rfl⟩ := Heap.Request.release.inj hreq
        exact .unfinished hp
      · cases hm
    | giveBack i k =>
      obtain ⟨l, hl, heq⟩ := Option.map_eq_some_iff.mp hm
      obtain ⟨rfl, hreq⟩ := Prod.mk.inj heq
      obtain ⟨rfl, rfl⟩ := Heap.Request.release.inj hreq
      exact .raw k hl
    | allot | construct =>
      simp only [movement] at hm
      (repeat' split at hm) <;> cases hm
    | _ => cases hm

/-! ### What an action does to kept blocks -/

theorem kept_congr (hv : v.heaps = w.heaps) : v.kept = w.kept := by
  funext h
  rw [kept, kept, hv]

theorem kept_modify {f : Heap → Heap} (hv : v.heaps = w.heaps.modify k f) (h : HeapId) :
    v.kept h = if k = h then (w.heaps[h]?.map fun heap => (f heap).quarantine.blocks).getD []
      else w.kept h := by
  rw [kept, hv, Array.getElem?_modify]
  split_ifs
  · cases w.heaps[h]? <;> rfl
  · rfl

/-- What leaves the blocks of a heap alone. -/
theorem kept_obey {r : Heap.Request} (hv : v.heaps = w.heaps.modify k (·.obey r))
    (hr : ∀ heap : Heap, (heap.obey r).quarantine.blocks = heap.quarantine.blocks) :
    v.kept = w.kept := by
  funext h
  rw [kept_modify hv]
  split_ifs
  · simp only [hr, kept]
  · rfl

theorem Stills.kept (hs : Stills w v) : v.kept = w.kept := by
  induction hs with
  | refl => rfl
  | tail _ hd ih =>
    cases hd with
    | rest hh => rw [kept_congr hh, ih]
    | note k r hr hh => rw [kept_obey hh fun _ => Heap.blocks_of_isMemo hr, ih]

theorem Stills.config (hs : Stills w v) (hh : w.heaps[h]? = some heap) :
    ∃ new, v.heaps[h]? = some new ∧ new.config = heap.config := by
  induction hs with
  | refl => exact ⟨heap, hh, rfl⟩
  | tail _ hd ih =>
    obtain ⟨mid, hmid, hconfig⟩ := ih
    cases hd with
    | rest hu => exact ⟨mid, hu ▸ hmid, hconfig⟩
    | note k r _ hu =>
      rw [hu, Array.getElem?_modify, hmid]
      split_ifs
      · exact ⟨_, rfl, by rw [Heap.config_obey, hconfig]⟩
      · exact ⟨mid, rfl, hconfig⟩

/-- A block that comes back is kept if that is wanted and the heap keeps blocks. -/
theorem kept_of_release (hm : w.Releases a h b wanted) (hh : w.heaps[h]? = some heap) :
    (a.run w).kept h =
      if wanted && heap.config.keeps then heap.prepare b :: w.kept h else w.kept h := by
  cases moves_of_movement (releases_iff.mp hm) with
  | @settle u _ _ _ hs hb =>
    obtain ⟨mid, hmid, hconfig⟩ := hs.config hh
    have hprepare : mid.prepare b = heap.prepare b := by simp only [Heap.prepare, hconfig]
    rw [kept_modify hb.heaps, if_pos rfl, hmid, Option.map_some, Option.getD_some,
      Heap.blocks_obey_release, ← kept_of_heap hmid, hs.kept, hconfig, hprepare]

/-- Where no block comes back, nothing changes but by emptying the quarantine. -/
theorem kept_of_not_release (hm : ∀ b wanted, ¬ w.Releases a h b wanted) (ha : a ≠ .reclaim h) :
    (a.run w).kept h = w.kept h := by
  obtain ⟨k, rfl⟩ | hmoves := moves_run (w := w) a
  · have hk : k ≠ h := by
      rintro rfl
      exact ha rfl
    exact (kept_modify (f := fun heap => heap.reclaim.2) rfl h).trans (if_neg hk)
  · generalize hq : w.movement a = q at hmoves
    cases hmoves with
    | still hs => rw [hs.kept]
    | openHeap c hh =>
      rw [kept, hh, Array.getElem?_push]
      split_ifs with hnew
      · simp [kept, hnew, Heap.fresh, Quarantine.empty]
      · rfl
    | @settle u k c keep hs hb =>
      have hk : k ≠ h := by
        rintro rfl
        exact hm c keep (releases_iff.mpr hq)
      rw [kept_modify hb.heaps, if_neg hk, hs.kept]
    | grant hs hg => rw [kept_obey hg.heaps fun _ => rfl, hs.kept]

theorem kept_reclaim (h : HeapId) : ((Action.reclaim h).run w).kept h = [] := by
  rw [kept_modify (w := w) (f := fun heap => heap.reclaim.2) rfl, if_pos rfl]
  cases w.heaps[h]? <;> rfl

/-- A heap that is not there keeps nothing. -/
theorem kept_of_no_heap (hm : w.Releases a h b wanted) (hh : w.heaps[h]? = none) :
    (a.run w).kept h = w.kept h := by
  cases moves_of_movement (releases_iff.mp hm) with
  | @settle u _ _ _ hs hb =>
    have hnone : u.heaps[h]? = none := by simpa [hs.size_heaps] using hh
    rw [kept_modify hb.heaps, if_pos rfl, hnone, kept, hh]
    rfl

/-- What an action does to the blocks that heap `h` keeps. -/
inductive KeptStep (w : World) (a : Action) (h : HeapId) : Prop where
  | same : (a.run w).kept h = w.kept h → KeptStep w a h
  | emptied : a = .reclaim h → (a.run w).kept h = [] → KeptStep w a h
  | entered {b : Block} {heap : Heap} : w.Releases a h b true → w.heaps[h]? = some heap →
    (a.run w).kept h = heap.prepare b :: w.kept h → KeptStep w a h

theorem keptStep (w : World) (a : Action) (h : HeapId) : KeptStep w a h := by
  by_cases ha : a = .reclaim h
  · exact .emptied ha (ha ▸ kept_reclaim h)
  by_cases hr : ∃ b wanted, w.Releases a h b wanted
  · obtain ⟨b, wanted, hr⟩ := hr
    cases hh : w.heaps[h]? with
    | none => exact .same (kept_of_no_heap hr hh)
    | some heap =>
      have hkept := kept_of_release hr hh
      split_ifs at hkept with hkeep
      · obtain ⟨rfl, -⟩ := Bool.and_eq_true_iff.mp hkeep
        exact .entered hr hh hkept
      · exact .same hkept
  · exact .same (kept_of_not_release (fun b wanted hb => hr ⟨b, wanted, hb⟩) ha)

/-! ### Runs -/

theorem kept_suffix_run (ha : a ≠ .reclaim h) : w.kept h <:+ (a.run w).kept h := by
  cases keptStep w a h with
  | same hkept => rw [hkept]
  | emptied hreclaim => exact absurd hreclaim ha
  | entered _ _ hkept =>
    rw [hkept]
    exact List.suffix_cons _ _

/-- What is kept stays as it is until the quarantine is emptied. -/
theorem kept_suffix_foldl {as : List Action} (has : .reclaim h ∉ as) :
    w.kept h <:+ (as.foldl Action.run w).kept h := by
  induction as generalizing w with
  | nil => exact List.suffix_rfl
  | cons a as ih =>
    obtain ⟨ha, has⟩ := not_or.mp (List.mem_cons.not.mp has)
    exact (kept_suffix_run (Ne.symm ha)).trans (ih has)

/-! ### Every reachable world -/

theorem Reachable.formed_of_releases (hw : w.Reachable) (hr : w.Releases a h b wanted)
    (hwanted : wanted = true) : b.Formed := by
  cases hr with
  | object _ hrec hb => exact hw.formed hrec hb
  | raw h hl => exact hw.formed_loose hl
  | unfinished => cases hwanted

theorem Reachable.formed_kept (hw : w.Reachable) (hz : z ∈ w.kept h) : z.Formed := by
  obtain ⟨grant, hw⟩ := hw
  induction hw with
  | refl =>
    obtain ⟨heap, hh, hz⟩ := exists_heap_of_kept hz
    obtain rfl : .fresh .standard = heap := by
      cases h <;> simp [start] at hh
      exact hh
    cases hz
  | @step v a hv ih =>
    cases keptStep v a h with
    | same hkept => exact ih (hkept ▸ hz)
    | emptied _ hkept =>
      rw [hkept] at hz
      cases hz
    | entered hr _ hkept =>
      rw [hkept] at hz
      obtain rfl | hz := List.mem_cons.mp hz
      · exact Heap.formed_prepare (Reachable.formed_of_releases ⟨grant, hv⟩ hr rfl)
      · exact ih hz

/-- The payload of a block that is kept is read as the block holds it. -/
theorem Reachable.peek?_eq (hw : w.Reachable) (hz : z ∈ w.kept h) (hi : i < z.payloadSize) :
    w.peek? h (z.payload + i) = z.contents.get? i := by
  have hform := hw.formed_kept hz
  have hapart := hw.laid.pairwise_kept h
  obtain ⟨heap, hh, hmem⟩ := exists_heap_of_kept hz
  rw [kept_of_heap hh] at hapart
  obtain ⟨next, hnext⟩ := Quarantine.byteIn_of_mem hapart hmem (hform.covers_payload hi)
  have hdistance : z.payload + i - z.base = z.offset + i := by
    unfold Block.payload
    omega
  rw [peek?, hh, Option.bind_some, Quarantine.byte?, hnext, hdistance, hform.byte?_payload hi]

/-- The payload of a block that is kept is read as it was, until the quarantine is emptied. -/
theorem Reachable.peek?_foldl (hw : w.Reachable) (hz : z ∈ w.kept h) {as : List Action}
    (has : .reclaim h ∉ as) (hi : i < z.payloadSize) :
    (as.foldl Action.run w).peek? h (z.payload + i) = z.contents.get? i :=
  (hw.reaches (reaches_foldl w as)).peek?_eq ((kept_suffix_foldl has).subset hz) hi

/-- A block that was granted and has not come back: that of an object, also while the object
is being destroyed, a raw block, or the block of an array that was never finished. -/
inductive Out (w : World) (b : Block) : Prop where
  | record (r : RecordId) : w.block? r = some b → Out w b
  | raw (i : Nat) (l : Loose) : w.loose? i = some l → l.block = b → Out w b
  | unfinished (h : HeapId) : .abandon h b ∈ w.pending → Out w b

theorem Out.charged (ho : w.Out b) : ∃ k, ⟨k, b.extent⟩ ∈ w.charges := by
  cases ho with
  | record r hr =>
    obtain ⟨rec, hrec, hb⟩ := Option.bind_eq_some_iff.mp hr
    exact ⟨rec.heap, mem_charges_of_record hrec hb⟩
  | raw i l hl hb =>
    subst hb
    have hi : some l ∈ w.blocks := by
      unfold loose? at hl
      cases hi : w.blocks[i]? with
      | none => simp [hi] at hl
      | some o =>
        obtain rfl : o = some l := by simpa [hi] using hl
        exact Array.mem_of_getElem? hi
    have hmem : ⟨l.heap, l.block.extent⟩ ∈ tally Charge.ofLoose w.blocks.toList :=
      mem_tally.mpr ⟨some l, Array.mem_toList_iff.mpr hi, Multiset.mem_singleton_self _⟩
    exact ⟨l.heap, by simp [charges, hmem]⟩
  | unfinished k hp =>
    have hmem : ⟨k, b.extent⟩ ∈ tally Charge.ofTask w.pending :=
      mem_tally.mpr ⟨_, hp, Multiset.mem_singleton_self _⟩
    exact ⟨k, by simp [charges, hmem]⟩

theorem Laid.apart_out (hw : w.Laid) (ho : w.Out b) (hz : z ∈ w.kept h) : b.Apart z := by
  obtain ⟨k, hc⟩ := ho.charged
  obtain ⟨heap, hh, hmem⟩ := exists_heap_of_kept hz
  exact hw.apart_charged hc (Array.mem_of_getElem? hh) hmem

/-- Heap `h` leaves the memory that it keeps alone. -/
structure LeavesKept (w : World) (h : HeapId) : Prop where
  /-- What comes back is kept just if that is wanted and the heap keeps blocks. -/
  released : ∀ a b wanted heap, w.Releases a h b wanted → w.heaps[h]? = some heap →
    (a.run w).kept h = if wanted && heap.config.keeps then heap.prepare b :: w.kept h else w.kept h
  /-- Nothing else is ever kept. -/
  spared : ∀ a, (∀ b wanted, ¬ w.Releases a h b wanted) → a ≠ .reclaim h →
    (a.run w).kept h = w.kept h
  /-- From its release on a payload reads as poison, or as it was when it was released. -/
  bytes : ∀ a b heap, w.Releases a h b true → w.heaps[h]? = some heap → heap.config.keeps = true →
    ∀ as : List Action, .reclaim h ∉ as → ∀ i < b.payloadSize,
      (as.foldl Action.run (a.run w)).peek? h (b.payload + i) =
        if heap.config.poisons then some Block.poison else b.contents.get? i
  /-- No action changes a byte of what is kept. -/
  unchanged : ∀ as : List Action, .reclaim h ∉ as → ∀ z ∈ w.kept h,
    z ∈ (as.foldl Action.run w).kept h ∧ ∀ i < z.payloadSize,
      (as.foldl Action.run w).peek? h (z.payload + i) = w.peek? h (z.payload + i)
  /-- What is out has no address in common with it. -/
  apart : ∀ b, w.Out b → ∀ z ∈ w.kept h, b.Apart z
  /-- What guards are on is out. -/
  guarded : ∀ g ∈ w.guards, ∃ b, w.block? g.2.record = some b ∧ w.Out b

/-- Quarantined memory is left alone. Of the blocks that come back to a heap, those of
tracked allocations and the raw ones are kept, if the heap keeps blocks; those of untracked
allocations and of arrays that were never finished are not, and no other action adds a
block. From then on, whatever the program does with owners, observing handles, guards, scans
and raw blocks and whatever destructors do, each byte of the payload is poison if the heap
poisons, and else what it was when the block came back, until this heap's quarantine is
emptied. -/
theorem kept_left_alone (hw : w.Reachable) (h : HeapId) : w.LeavesKept h where
  released _ _ _ _ hr hh := kept_of_release hr hh
  spared _ hr ha := kept_of_not_release hr ha
  bytes a b heap hr hh hkeeps as has i hi := by
    have hrun : (a.run w).Reachable := hw.reaches (.once a)
    have hmem : heap.prepare b ∈ (a.run w).kept h := by
      rw [kept_of_release hr hh, hkeeps]
      exact List.mem_cons_self
    have hpeek := hrun.peek?_foldl hmem has (by rwa [Heap.prepare_payloadSize])
    rwa [Heap.prepare_payload, Heap.get?_prepare] at hpeek
  unchanged as has z hz :=
    ⟨(kept_suffix_foldl has).subset hz,
      fun i hi => by rw [hw.peek?_foldl hz has hi, hw.peek?_eq hz hi]⟩
  apart _ ho _ hz := hw.laid.apart_out ho hz
  guarded g hg := by
    obtain ⟨-, b, -, hb⟩ := hw.sound.kept_of_guard hg
    exact ⟨b, hb, .record _ hb⟩

/-- A second heap, which does not poison, and a raw block on it that is filled. -/
def scribbled : World :=
  ([.openHeap { Config.standard with poisons := false }, .allot 1 ⟨16, 8⟩ 2, .fill 0 0xAB] :
    List Action).foldl Action.run (start defaultGrant)

/-- Another block is granted and filled, goes back to the same heap, and the default heap's
quarantine is emptied. -/
def bustle : List Action :=
  [.allot 1 ⟨16, 8⟩ 2, .fill 1 0x11, .giveBack 1 1, .reclaim 0]

theorem scribbles_kept : ∃ l, scribbled.loose? 0 = some l ∧ l.block.payloadSize = 16 ∧
    (∀ i < 16, (bustle.foldl Action.run ((Action.giveBack 0 1).run scribbled)).peek? 1
      (l.block.payload + i) = some 0xAB) ∧
    ∀ i < 16, ((Action.giveBack 0 0).run scribbled).peek? 0 (l.block.payload + i) =
      some Block.poison := by
  have hw : scribbled.Reachable := reachable_foldl defaultGrant _
  obtain ⟨l, hl, hsize, hcontents⟩ : ∃ l, scribbled.loose? 0 = some l ∧ l.block.payloadSize = 16 ∧
      l.block.contents = .uniform 0xAB := ⟨_, rfl, rfl, rfl⟩
  obtain ⟨plain, hplain, hconfig⟩ : ∃ heap, scribbled.heaps[1]? = some heap ∧
      heap.config = { Config.standard with poisons := false } := ⟨_, rfl, rfl⟩
  obtain ⟨default, hdefault, hstandard⟩ : ∃ heap, scribbled.heaps[0]? = some heap ∧
      heap.config = .standard := ⟨_, rfl, rfl⟩
  refine ⟨l, hl, hsize, fun i hi => ?_, fun i hi => ?_⟩
  · have hbyte := (kept_left_alone hw 1).bytes _ _ plain (.raw 1 hl) hplain (by rw [hconfig]; rfl)
      bustle (by simp [bustle]) i (hsize ▸ hi)
    rw [hbyte, hconfig, hcontents]
    rfl
  · have hbyte :=
      (kept_left_alone hw 0).bytes _ _ default (.raw 0 hl) hdefault (by rw [hstandard]; rfl)
      [] (by simp) i (hsize ▸ hi)
    rw [List.foldl_nil] at hbyte
    rw [hbyte, hstandard]
    rfl

end World

end Custody

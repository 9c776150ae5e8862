import Custody.Proofs.Memory.Apart

/-! Detection is exact. An address is reported just if it lies in a block that came in
while detection was on and is still kept, provided that the allocator grants no block
that overlaps one that is in use or kept. In every reachable world the arena sees to
that, and no address of a block in use is reported by any heap. -/

namespace Custody

/-! ### Around a quarantine -/

def Block.SameRange (b c : Block) : Prop := b.base = c.base ∧ b.size = c.size

theorem Block.SameRange.trans {b c d : Block} (h : b.SameRange c) (k : c.SameRange d) :
    b.SameRange d :=
  ⟨h.1.trans k.1, h.2.trans k.2⟩

theorem Block.SameRange.separate {b c d : Block} (h : b.SameRange c) (hb : b.Separate d) :
    c.Separate d := by
  unfold Block.Separate at hb ⊢
  rw [← h.1, ← h.2]
  exact hb

namespace Quarantine

/-- What happens to blocks around a quarantine: the allocator grants one, one goes back to
it, or the quarantine is asked for something. -/
inductive Transfer where
  | grant (b : Block)
  | free (b : Block)
  | ask (r : Request)
  deriving DecidableEq

/-- What the quarantine is asked for. -/
def Transfer.request? : Transfer → Option Request
  | .ask r => some r
  | .grant _ | .free _ => none

def asked (es : List Transfer) : List Request := es.filterMap Transfer.request?

/-- A block with the range of `b` leaves the hands of the program. -/
def Transfer.Surrenders (b : Block) : Transfer → Prop
  | .free c | .ask (.push c) => b.SameRange c
  | .grant _ | .ask .reclaim | .ask (.setDetecting _) => False

/-- The block was granted and is still in the hands of the program. -/
def InUse (es : List Transfer) (b : Block) : Prop :=
  LastedSince (fun _ => True) (.grant b) (Transfer.Surrenders b) es

variable {d : Bool} {es : List Transfer} {e : Transfer} {b c : Block}

/-- The allocator grants no block that overlaps one in use or one that is kept, and the
blocks that come in are in use until then. -/
structure Fair (d : Bool) (es : List Transfer) : Prop where
  granted : ∀ before b after, es = before ++ .grant b :: after →
    (∀ c, InUse before c → b.Separate c) ∧ ((empty d).obeyAll (asked before)).HasRoom b
  returned : ∀ before b after, es = before ++ .ask (.push b) :: after →
    ∃ c, InUse before c ∧ c.SameRange b

theorem fair_nil : Fair d [] := ⟨fun _ _ _ h => by simp at h, fun _ _ _ h => by simp at h⟩

theorem fair_concat : Fair d (es ++ [e]) ↔ Fair d es ∧
    (∀ b, e = .grant b →
      (∀ c, InUse es c → b.Separate c) ∧ ((empty d).obeyAll (asked es)).HasRoom b) ∧
    (∀ b, e = .ask (.push b) → ∃ c, InUse es c ∧ c.SameRange b) := by
  constructor
  · intro h
    obtain ⟨hgranted, hgrant⟩ := forall_division_concat.mp
      fun before x after hes b (hx : x = .grant b) => h.granted before b after (hx ▸ hes)
    obtain ⟨hreturned, hreturn⟩ := forall_division_concat.mp
      fun before x after hes b (hx : x = .ask (.push b)) => h.returned before b after (hx ▸ hes)
    exact ⟨⟨fun before b after hes => hgranted before _ after hes b rfl,
      fun before b after hes => hreturned before _ after hes b rfl⟩, hgrant, hreturn⟩
  · rintro ⟨h, hgrant, hreturn⟩
    have hgranted := forall_division_concat.mpr
      ⟨fun before x after hes b (hx : x = .grant b) => h.granted before b after (hx ▸ hes), hgrant⟩
    have hreturned := forall_division_concat.mpr
      ⟨fun before x after hes b (hx : x = .ask (.push b)) => h.returned before b after (hx ▸ hes),
        hreturn⟩
    exact ⟨fun before b after hes => hgranted before _ after hes b rfl,
      fun before b after hes => hreturned before _ after hes b rfl⟩

theorem inUse_concat : InUse (es ++ [e]) b ↔ e = .grant b ∨ (¬ e.Surrenders b ∧ InUse es b) := by
  rw [InUse, lastedSince_concat, and_true]
  rfl

/-- Blocks in use are apart from those that are kept and from each other. -/
structure Spread (d : Bool) (es : List Transfer) : Prop where
  kept : ∀ b, InUse es b → ((empty d).obeyAll (asked es)).HasRoom b
  apart : ∀ b c, InUse es b → InUse es c → b.SameRange c ∨ b.Separate c
  admits : (empty d).Admits (asked es)

theorem asked_concat : asked (es ++ [e]) = asked es ++ e.request?.toList := by
  cases e <;> simp [asked, Transfer.request?]

theorem Admits.concat {q : Quarantine} {rs : List Request} {r : Request} (h : q.Admits rs)
    (hr : ∀ b, r = .push b → (q.obeyAll rs).HasRoom b) : q.Admits (rs ++ [r]) := by
  refine h.append fun before b after hrs => ?_
  obtain ⟨rfl, rfl⟩ : before = [] ∧ r = .push b := by
    cases before with
    | nil => exact ⟨rfl, List.head_eq_of_cons_eq hrs⟩
    | cons x before => simp at hrs
  exact hr b rfl

theorem Spread.grant (h : Spread d es) (hb : ∀ c, InUse es c → b.Separate c)
    (hroom : ((empty d).obeyAll (asked es)).HasRoom b) : Spread d (es ++ [.grant b]) := by
  have hasked : asked (es ++ [.grant b]) = asked es := by simp [asked_concat, Transfer.request?]
  have huse (c : Block) : InUse (es ++ [.grant b]) c ↔ b = c ∨ InUse es c := by
    simp [inUse_concat, Transfer.Surrenders]
  refine ⟨fun c hc => ?_, fun c e hc he => ?_, by rw [hasked]; exact h.admits⟩
  · rw [hasked]
    obtain rfl | hc := (huse c).mp hc
    · exact hroom
    · exact h.kept c hc
  · obtain rfl | hc := (huse c).mp hc
    · obtain rfl | he := (huse e).mp he
      · exact .inl ⟨rfl, rfl⟩
      · exact .inr (hb e he)
    · obtain rfl | he := (huse e).mp he
      · exact .inr (hb c hc).symm
      · exact h.apart c e hc he

theorem Spread.free (h : Spread d es) (b : Block) : Spread d (es ++ [.free b]) := by
  have hasked : asked (es ++ [.free b]) = asked es := by simp [asked_concat, Transfer.request?]
  have huse {c : Block} (hc : InUse (es ++ [.free b]) c) : InUse es c := by
    simpa using (inUse_concat.mp hc).elim nofun And.right
  refine ⟨fun c hc => ?_, fun c e hc he => h.apart c e (huse hc) (huse he), ?_⟩
  · rw [hasked]
    exact h.kept c (huse hc)
  · rw [hasked]
    exact h.admits

/-- A block that comes in was in use, and so it is apart from all that are still in use and
from all that are kept. -/
theorem Spread.push (h : Spread d es) (hc : InUse es c) (hcb : c.SameRange b) :
    Spread d (es ++ [.ask (.push b)]) := by
  have hasked : asked (es ++ [.ask (.push b)]) = asked es ++ [.push b] := asked_concat
  have huse {a : Block} (ha : InUse (es ++ [.ask (.push b)]) a) : ¬ a.SameRange b ∧ InUse es a :=
    (inUse_concat.mp ha).elim nofun id
  refine ⟨fun a ha => ?_, fun a e ha he => h.apart a e (huse ha).2 (huse he).2, ?_⟩
  · obtain ⟨hne, hold⟩ := huse ha
    have hac := (h.apart a c hold hc).resolve_left fun hac => hne (hac.trans hcb)
    rw [hasked, obeyAll_append, obeyAll_singleton]
    intro z hz
    obtain rfl | hz := List.mem_cons.mp hz
    · exact (hcb.separate hac.symm).symm
    · exact h.kept a hold z hz
  · rw [hasked]
    refine h.admits.concat fun a ha => ?_
    obtain rfl := Request.push.inj ha
    exact fun z hz => hcb.separate (h.kept c hc z hz)

theorem blocks_obey_subset {q : Quarantine} {r : Request} (hr : ∀ b, r ≠ .push b) :
    (q.obey r).blocks ⊆ q.blocks := by
  cases r with
  | push b => exact absurd rfl (hr b)
  | reclaim => exact List.nil_subset _
  | setDetecting on =>
    obtain ⟨-, hs⟩ | ⟨-, hs⟩ := setDetecting_cases (q := q) on <;> simp [obey, hs]

theorem Spread.other (h : Spread d es) {r : Request} (hr : ∀ b, r ≠ .push b) :
    Spread d (es ++ [.ask r]) := by
  have hasked : asked (es ++ [.ask r]) = asked es ++ [r] := asked_concat
  have huse {a : Block} (ha : InUse (es ++ [.ask r]) a) : InUse es a :=
    (inUse_concat.mp ha).elim nofun And.right
  refine ⟨fun a ha => ?_, fun a e ha he => h.apart a e (huse ha) (huse he), ?_⟩
  · rw [hasked, obeyAll_append, obeyAll_singleton]
    exact fun z hz => h.kept a (huse ha) z (blocks_obey_subset hr hz)
  · rw [hasked]
    exact h.admits.concat fun b hb => absurd hb (hr b)

theorem Fair.spread (h : Fair d es) : Spread d es := by
  induction es using List.reverseRecOn with
  | nil =>
    exact ⟨fun b hb => absurd hb not_lastedSince_nil, fun b c hb => absurd hb not_lastedSince_nil,
      fun before b after hrs => by simp [asked] at hrs⟩
  | append_singleton es e ih =>
    obtain ⟨hfair, hgrant, hreturn⟩ := fair_concat.mp h
    have ih := ih hfair
    cases e with
    | grant b =>
      obtain ⟨hsep, hroom⟩ := hgrant b rfl
      exact ih.grant hsep hroom
    | free b => exact ih.free b
    | ask r =>
      cases r with
      | push b =>
        obtain ⟨c, hc, hcb⟩ := hreturn b rfl
        exact ih.push hc hcb
      | reclaim => exact ih.other nofun
      | setDetecting on => exact ih.other nofun

/-- Detection is exact for every fair use of a quarantine. -/
theorem Fair.reportsExactly (h : Fair d es) :
    ((empty d).obeyAll (asked es)).ReportsExactly ((empty d).Recorded (asked es)) :=
  (tracks_obeyAll h.spread.admits).reportsExactly

/-- No address of a block in use is reported. -/
theorem Fair.isClear (h : Fair d es) (hb : InUse es b) {a : Nat} (ha : b.covers a = true) :
    ((empty d).obeyAll (asked es)).isClear a = true :=
  h.reportsExactly.spared b (h.spread.kept b hb) a ha

theorem obey_of_refused {q : Quarantine} {on : Bool} {e : HeapRefusal}
    (h : q.setDetecting on = .error e) : q.obey (.setDetecting on) = q := by
  simp only [obey, h]

end Quarantine

/-! ### Heaps -/

namespace Heap

variable {h : Heap} {c : Config} {rs : List Request}

@[simp] theorem covers_prepare (b : Block) (a : Nat) : (h.prepare b).covers a = b.covers a := by
  unfold prepare
  split_ifs <;> rfl

theorem reportsExactly_obeyAll (ha : (fresh c).Admits rs) :
    ((fresh c).obeyAll rs).quarantine.ReportsExactly
      fun z => ∃ b, (fresh c).Recorded rs b ∧ (fresh c).prepare b = z := by
  rw [quarantine_obeyAll]
  exact ((Quarantine.tracks_obeyAll ha).congr fun z => recorded_passed.symm).reportsExactly

/-- Switching detection answers whether it was in effect. -/
theorem detects_of_setDetecting {on before : Bool} {k : Heap}
    (hk : h.setDetecting on = .ok (before, k)) : before = h.detects := by
  unfold setDetecting at hk
  obtain ⟨-, hs⟩ | ⟨-, hs⟩ := Quarantine.setDetecting_cases (q := h.quarantine) on
  · rw [hs] at hk
    obtain ⟨rfl, -⟩ := Prod.mk.inj (Except.ok.inj hk)
    exact Bool.and_comm _ _
  · rw [hs] at hk
    cases hk

theorem obey_of_refused {on : Bool} {e : HeapRefusal} (hk : h.setDetecting on = .error e) :
    h.obey (.setDetecting on) = h := by
  simp only [obey, hk]

theorem admits_singleton {r : Request}
    (hr : ∀ b, .push b ∈ h.passed r → h.quarantine.HasRoom b) : h.Admits [r] := by
  intro before b after hrs
  have hlen := congrArg List.length hrs
  have hone : (h.passed r).length ≤ 1 := by
    cases r with
    | release b keep =>
      simp only [passed]
      split_ifs <;> simp
    | _ => simp [passed]
  simp only [List.flatMap_cons, List.flatMap_nil, List.append_nil, List.length_append,
    List.length_cons] at hlen hrs
  obtain rfl : before = [] := List.length_eq_zero_iff.mp (by omega)
  exact hr b (by simp [hrs])

end Heap

/-! ### Every reachable world -/

namespace World

variable {tidy : Prop} {v w : World} {h : HeapId} {heap : Heap}

/-- Every heap has a run of its own, in which no block that is kept overlaps another. -/
def Regular (w : World) : Prop :=
  ∀ heap ∈ w.heaps, ∃ c rs, heap = (Heap.fresh c).obeyAll rs ∧ (Heap.fresh c).Admits rs

theorem separate_of_apart {s t : Block} (h : s.Apart t) : s.Separate t := by
  have hs : s.extent.first ≤ s.extent.past := Nat.le_add_right _ _
  have ht : t.extent.first ≤ t.extent.past := Nat.le_add_right _ _
  obtain h | h := h
  · exact ⟨(hs.trans_lt h).ne, .inl h.le⟩
  · exact ⟨(ht.trans_lt h).ne', .inr h.le⟩

theorem Regular.modify (hr : w.Regular) {r : Heap.Request}
    (ha : ∀ heap ∈ w.heaps, heap.Admits [r]) (hv : v.heaps = w.heaps.modify h (·.obey r)) :
    v.Regular := by
  intro heap hheap
  rw [hv] at hheap
  obtain ⟨i, hi⟩ := Array.mem_iff_getElem?.mp hheap
  rw [Array.getElem?_modify] at hi
  split_ifs at hi
  · obtain ⟨old, hold, rfl⟩ := Option.map_eq_some_iff.mp hi
    have hmem := Array.mem_of_getElem? hold
    obtain ⟨c, rs, rfl, hadm⟩ := hr old hmem
    exact ⟨c, rs ++ [r], by simp, hadm.append (ha _ hmem)⟩
  · exact hr heap (Array.mem_of_getElem? hi)

theorem Regular.deal (hr : w.Regular) (hl : w.Laid) (hd : Deal tidy w v) : v.Regular := by
  cases hd with
  | rest hh => exact fun heap hheap => hr heap (hh ▸ hheap)
  | openHeap c hh =>
    intro heap hheap
    rw [hh, Array.mem_push] at hheap
    obtain hheap | rfl := hheap
    · exact hr heap hheap
    · exact ⟨c, [], rfl, Heap.Admits.nil⟩
  | note h r hnote hh =>
    refine hr.modify (fun heap _ => Heap.admits_singleton fun b hb => ?_) hh
    cases r <;> simp_all [Heap.passed, Heap.Request.IsNote]
  | settle owner h b keep _ hh hc =>
    refine hr.modify (fun heap hheap => Heap.admits_singleton fun z hz => ?_) hh
    simp only [Heap.passed] at hz
    split_ifs at hz
    · obtain rfl := Quarantine.Request.push.inj (List.mem_singleton.mp hz)
      intro y hy
      have hcharge : ⟨owner, b.extent⟩ ∈ w.charges := by simp [hc]
      have hapart := hl.apart_charged hcharge hheap hy
      refine separate_of_apart (s := heap.prepare b) ?_
      rw [Block.Apart, Extent.extent_prepare]
      exact hapart
    · cases hz
  | grant h b payload n _ _ hh =>
    exact hr.modify (fun heap _ => Heap.admits_singleton fun b hb => by simp [Heap.passed] at hb) hh

theorem Regular.deals (hr : w.Regular) (hl : w.Laid) (hd : Deals tidy w v) : v.Regular := by
  induction hd with
  | refl => exact hr
  | tail hd hstep ih => exact ih.deal (hl.deals hd) hstep

theorem Reachable.regular (h : w.Reachable) : w.Regular := by
  obtain ⟨grant, h⟩ := h
  induction h with
  | refl =>
    intro heap hheap
    obtain rfl : heap = .fresh .standard := by simpa [start] using hheap
    exact ⟨.standard, [], rfl, Heap.Admits.nil⟩
  | step a hv ih => exact ih.deals (World.Reachable.laid ⟨grant, hv⟩) (deals_run a)

/-- No address of a block that has not come back is reported, by any heap. -/
theorem Reachable.isClear (hw : w.Reachable) {c : Charge} (hc : c ∈ w.charges) (hh : heap ∈ w.heaps)
    {a : Nat} (hlow : c.extent.first ≤ a) (hhigh : a < c.extent.past) :
    heap.quarantine.isClear a = true := by
  obtain ⟨config, rs, rfl, hadm⟩ := hw.regular heap hh
  by_contra hclear
  have hrep := Heap.reportsExactly_obeyAll hadm
  obtain ⟨z, hz, hza⟩ := (hrep.reported a).mp (by simpa using hclear)
  have hapart := hw.laid.apart_charged hc hh (hrep.listed z hz)
  obtain ⟨hzlow, hzhigh⟩ := Block.covers_iff.mp hza
  obtain h | h := hapart <;> simp only [Block.extent] at h <;> omega

theorem setDetecting_of_error {on : Bool} {e : HeapRefusal} (h : HeapId)
    (he : (w.setDetecting h on).1 = .error e) : (w.setDetecting h on).2 = w := by
  unfold setDetecting at he ⊢
  split at he
  · cases he
  · rfl
  · cases he

theorem setDetecting_of_ok {on before : Bool} (hh : w.heaps[h]? = some heap)
    (he : (w.setDetecting h on).1 = .ok before) : before = heap.detects := by
  unfold setDetecting at he
  rw [hh, Option.map_some] at he
  split at he
  · rename_i b k hset
    obtain rfl := Except.ok.inj he
    exact Heap.detects_of_setDetecting (Option.some.inj hset)
  · cases he
  · rename_i hset
    cases hset

end World

/-! ### What is reported -/

open Quarantine (Transfer Fair InUse asked)

/-- Of a quarantine, and of the quarantine of a heap, an address is reported just if it
lies in a block that came in while detection was on and has been kept since, provided that
the allocator grants no block that overlaps one in use or one that is kept. Then no address
of a block in use is reported, nor one of any other block apart from those kept, nor any
while detection is off; ranges are recorded only while it is on, and it can be switched
just if none is. A switch that is refused changes nothing, and one that a heap accepts
answers whether detection was in effect. In every reachable world no address of a block
that has not come back to a heap is reported by any heap. -/
theorem detection_exact {d : Bool} {es fs : List Transfer} {c : Config} {rs : List Heap.Request}
    {w : World} (hes : Fair d es) (hfs : Fair (c.keeps && c.detects) fs)
    (hrs : asked fs = rs.flatMap (Heap.fresh c).passed) (hw : w.Reachable) :
    (((Quarantine.empty d).obeyAll (asked es)).ReportsExactly
        ((Quarantine.empty d).Recorded (asked es)) ∧
      ∀ b, InUse es b → ∀ a, b.covers a = true →
        ((Quarantine.empty d).obeyAll (asked es)).isClear a = true) ∧
    (((Heap.fresh c).obeyAll rs).quarantine.ReportsExactly
        (fun z => ∃ b, (Heap.fresh c).Recorded rs b ∧ (Heap.fresh c).prepare b = z) ∧
      (∀ a, ((Heap.fresh c).obeyAll rs).quarantine.isClear a = false ↔
        ∃ b, (Heap.fresh c).Recorded rs b ∧ b.covers a = true) ∧
      ∀ b, InUse fs b → ∀ a, b.covers a = true →
        ((Heap.fresh c).obeyAll rs).quarantine.isClear a = true) ∧
    (∀ (q : Quarantine) on e, q.setDetecting on = .error e → q.obey (.setDetecting on) = q) ∧
    (∀ (h : Heap) on, (∀ e, h.setDetecting on = .error e → h.obey (.setDetecting on) = h) ∧
      ∀ before k, h.setDetecting on = .ok (before, k) → before = h.detects) ∧
    (∀ heap ∈ w.heaps, ∀ s ∈ w.charges, ∀ a, s.extent.first ≤ a → a < s.extent.past →
      heap.quarantine.isClear a = true) ∧
    ∀ h on, (∀ e, (w.setDetecting h on).1 = .error e → (w.setDetecting h on).2 = w) ∧
      ∀ heap before, w.heaps[h]? = some heap → (w.setDetecting h on).1 = .ok before →
        before = heap.detects := by
  have hadm : (Heap.fresh c).Admits rs := by
    rw [Heap.Admits, ← hrs]
    exact hfs.spread.admits
  have hquarantine : ((Heap.fresh c).obeyAll rs).quarantine =
      (Quarantine.empty (c.keeps && c.detects)).obeyAll (asked fs) := by
    rw [Heap.quarantine_obeyAll, ← hrs]
    rfl
  have hheap := Heap.reportsExactly_obeyAll hadm
  refine ⟨⟨hes.reportsExactly, fun b hb a ha => hes.isClear hb ha⟩,
    ⟨hheap, fun a => ?_, fun b hb a ha => ?_⟩,
    fun q on e he => Quarantine.obey_of_refused he,
    fun h on => ⟨fun e he => Heap.obey_of_refused he,
      fun before k hk => Heap.detects_of_setDetecting hk⟩,
    fun heap hh s hs a hlow hhigh => hw.isClear hs hh hlow hhigh,
    fun h on => ⟨fun e he => World.setDetecting_of_error h he,
      fun heap before hh he => World.setDetecting_of_ok hh he⟩⟩
  · rw [hheap.reported]
    constructor
    · rintro ⟨z, ⟨b, hb, rfl⟩, ha⟩
      exact ⟨b, hb, by rwa [Heap.covers_prepare] at ha⟩
    · rintro ⟨b, hb, ha⟩
      exact ⟨_, ⟨b, hb, rfl⟩, by rwa [Heap.covers_prepare]⟩
  · rw [hquarantine]
    exact hfs.isClear hb ha

/-- A block of 64 bytes. -/
def smallBlock (base : Nat) : Block := ⟨base, ⟨64, 8⟩, 48, 16, 1, .unknown⟩

/-- Two blocks that touch are granted, and the lower one comes back. -/
def touching : List Transfer :=
  [.grant (smallBlock 4096), .grant (smallBlock 4160), .ask (.push (smallBlock 4096))]

theorem inUse_touching : InUse touching (smallBlock 4160) ∧
    InUse [.grant (smallBlock 4096), .grant (smallBlock 4160)] (smallBlock 4096) :=
  ⟨⟨[.grant (smallBlock 4096)], [.ask (.push (smallBlock 4096))], rfl, trivial, by
      simp [Transfer.Surrenders, Block.SameRange, smallBlock]⟩,
    ⟨[], [.grant (smallBlock 4160)], rfl, trivial, by simp [Transfer.Surrenders]⟩⟩

theorem fair_touching (d : Bool) : Fair d touching := by
  have hfirst : Fair d [.grant (smallBlock 4096)] := by
    refine Quarantine.fair_concat.mpr ⟨Quarantine.fair_nil, fun b _ => ⟨fun c hc => ?_, ?_⟩,
      fun b hb => by cases hb⟩
    · exact absurd hc not_lastedSince_nil
    · exact fun c hc => absurd hc List.not_mem_nil
  have hsecond : Fair d [.grant (smallBlock 4096), .grant (smallBlock 4160)] := by
    refine Quarantine.fair_concat.mpr ⟨hfirst, fun b hb => ⟨fun c hc => ?_, ?_⟩,
      fun b hb => by cases hb⟩
    · obtain rfl := Transfer.grant.inj hb
      have hc : InUse ([] ++ [.grant (smallBlock 4096)]) c := hc
      obtain hc | ⟨-, hc⟩ := Quarantine.inUse_concat.mp hc
      · obtain rfl := Transfer.grant.inj hc
        decide
      · exact absurd hc not_lastedSince_nil
    · exact fun c hc => absurd hc List.not_mem_nil
  refine (Quarantine.fair_concat (e := .ask (.push (smallBlock 4096)))).mpr
    ⟨hsecond, fun b hb => absurd hb Transfer.noConfusion, fun b hb => ?_⟩
  obtain rfl := Quarantine.Request.push.inj (Transfer.ask.inj hb)
  exact ⟨_, inUse_touching.2, rfl, rfl⟩

/-- Blocks are kept as they are. -/
def unpoisoned : Config := { Config.standard with poisons := false }

/-- The last address of the lower block is reported, by a heap too, and the next one, of the
block that is still in use, is not; detection cannot be switched off. -/
theorem detected_touching :
    (((Quarantine.empty true).obeyAll (asked touching)).isClear 4159 = false ∧
      ((Quarantine.empty true).obeyAll (asked touching)).isClear 4160 = true ∧
      ∃ e, ((Quarantine.empty true).obeyAll (asked touching)).setDetecting false = .error e) ∧
    ((Heap.fresh unpoisoned).obeyAll
      [.allocated (smallBlock 4096), .release (smallBlock 4096) true]).quarantine.isClear 4159 =
        false := by
  have hasked : asked touching =
      [Heap.Request.allocated (smallBlock 4096), .release (smallBlock 4096) true].flatMap
        (Heap.fresh unpoisoned).passed := rfl
  have hfair : Fair (unpoisoned.keeps && unpoisoned.detects) touching := fair_touching true
  obtain ⟨⟨hrep, huse⟩, ⟨-, hheap, -⟩, -⟩ := detection_exact (fair_touching true) hfair hasked
    (World.reachable_foldl World.defaultGrant [])
  have hrecorded : (Quarantine.empty true).Recorded (asked touching) (smallBlock 4096) :=
    ⟨[], [], rfl, rfl, by simp⟩
  refine ⟨⟨(hrep.reported 4159).mpr ⟨_, hrecorded, rfl⟩, huse _ inUse_touching.1 4160 rfl,
    (hrep.pinned false).mpr ?_⟩, (hheap 4159).mpr ⟨smallBlock 4096, ?_, rfl⟩⟩
  · decide
  · exact ⟨[.allocated (smallBlock 4096)], [], rfl, rfl, by simp⟩

end Custody

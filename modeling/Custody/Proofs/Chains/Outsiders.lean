import Custody.Proofs.Chains.Cascade
import Custody.Proofs.Registrations

/-! Who observes a chain from outside. All handles on the nodes of a chain are in variables, in
objects that are not in the chain, or in the chain itself; and in the chain there is one
for each node but the first. -/

namespace Custody

open Stake

/-! ### Observing handles in an inventory -/

/-- Whether a stake is an observing handle on one of some records. -/
def Stake.observesIn (rs : List RecordId) : Stake → Bool
  | .watches k => k.record ∈ rs
  | .owns _ | .leaves _ | .retires _ => false

namespace Stake

variable {rs : List RecordId} {r : RecordId} {c : Multiset Stake}

theorem observesIn_cons (hr : r ∉ rs) (s : Stake) :
    ((s.observesIn (r :: rs)).toNat : Nat) =
      (s.observesIn [r]).toNat + (s.observesIn rs).toNat := by
  cases s with
  | watches k =>
    by_cases hk : k.record = r
    · simp [observesIn, hk, hr]
    · simp [observesIn, hk]
  | owns | leaves | retires => rfl

/-- The handles on several records are those on each. -/
theorem countP_observesIn (hn : rs.Nodup) (c : Multiset Stake) :
    c.countP (fun s => s.observesIn rs) =
      (rs.map fun r => c.countP fun s => s.observesIn [r]).sum := by
  induction rs with
  | nil =>
    rw [List.map_nil, List.sum_nil, Multiset.countP_eq_zero]
    intro s _
    cases s <;> simp [observesIn]
  | cons r rs ih =>
    obtain ⟨hr, hn⟩ := List.nodup_cons.mp hn
    rw [List.map_cons, List.sum_cons, ← ih hn]
    clear ih
    induction c using Multiset.induction_on with
    | empty => rfl
    | cons s c ih =>
      have hs := observesIn_cons hr s
      simp only [Multiset.countP_cons, ih]
      cases h₁ : s.observesIn (r :: rs) <;> cases h₂ : s.observesIn [r] <;>
        cases h₃ : s.observesIn rs <;> simp [h₁, h₂, h₃] at hs ⊢ <;> omega

theorem card_registrations (c : Multiset Stake) (hc : ∀ s ∈ c, s.record = r) :
    (registrations c).card = c.countP fun s => s.observesIn [r] := by
  induction c using Multiset.induction_on with
  | empty => rfl
  | cons s c ih =>
    have hrest := ih fun x hx => hc x (Multiset.mem_cons_of_mem hx)
    have hs := hc s (Multiset.mem_cons_self s c)
    cases s with
    | watches k =>
      have hk : k.record = r := hs
      rw [registrations_watches, Multiset.card_cons, hrest,
        Multiset.countP_cons_of_pos _ (by simp [observesIn, hk])]
    | owns q => rw [registrations_owns, hrest, Multiset.countP_cons_of_neg _ (by simp [observesIn])]
    | leaves q =>
      rw [registrations_leaves, hrest, Multiset.countP_cons_of_neg _ (by simp [observesIn])]
    | retires q =>
      rw [registrations_retires, hrest, Multiset.countP_cons_of_neg _ (by simp [observesIn])]

end Stake

theorem countP_tally {α β : Type} (p : β → Prop) [DecidablePred p] (f : α → Multiset β)
    (l : List α) :
    (tally f l).countP p = (l.map fun a => (f a).countP p).sum := by
  induction l with
  | nil => rfl
  | cons a l ih => rw [tally_cons, Multiset.countP_add, ih, List.map_cons, List.sum_cons]

namespace World

variable {w : World} {h : HeapId} {n : Nat} {prev : Soft} {r : RecordId} {rs : List RecordId}
  {rec : Record}

/-- The stakes that are held in the object of a record. -/
def stakesOf (w : World) (r : RecordId) : Multiset Stake := tally ofItem ((w.object? r).getD [])

/-- The observing handles on some records that are in variables or in objects of other
records. -/
def outsiders (w : World) (rs : List RecordId) : Multiset Stake :=
  (tally ofSoft w.softs.toList + tally ofScan w.scans.toList + tally ofWalk w.walks.toList +
    tally w.stakesOf ((List.range w.records.size).filter (· ∉ rs))).filter (·.observesIn rs)

/-- While an object is alive, all its observers are live. -/
theorem Sound.liveObservers_eq (hw : w.Sound) (hr : w.records[r]? = some rec)
    (ha : rec.isAlive = true) (hm : rec.kind.mode = .tracked) :
    w.liveObservers r = w.stakes.countP fun s => s.observesIn [r] := by
  obtain ⟨-, -, hcard⟩ := hw.tracked_observers hr hm
  have henrolled := hw.enrolled hr
  have hall : rec.slots.liveCount = rec.slots.count := by
    rw [SlotTable.liveCount, henrolled.slots.count_eq, List.filter_eq_self.mpr]
    rintro ⟨k, s⟩ he
    simpa using henrolled.live ha k s (henrolled.slots.mem_entries.mp he)
  rw [observers_some hr] at hcard
  rw [liveObservers_of_record hr, hall, hcard, observersOf,
    card_registrations _ fun s hs => (mem_stakesIn.mp hs).2, stakesIn, Multiset.countP_filter]
  refine Multiset.countP_congr rfl fun s _ => ?_
  cases s <;> simp [observesIn, Stake.record]

theorem tally_ofRecord (w : World) :
    tally ofRecord w.records.toList = tally w.stakesOf (List.range w.records.size) := by
  have hlist : w.records.toList.map ofRecord = (List.range w.records.size).map w.stakesOf := by
    refine List.ext_getElem? fun i => ?_
    rw [List.getElem?_map, List.getElem?_map, Array.getElem?_toList]
    by_cases hi : i < w.records.size
    · rw [List.getElem?_range hi, Option.map_some, stakesOf, object?, Array.getElem?_eq_getElem hi]
      rfl
    · rw [Array.getElem?_eq_none (by omega), List.getElem?_eq_none (by simpa using hi)]
      rfl
  rw [tally, tally, hlist]

/-! ### The handles within a chain -/

theorem countP_ofOwner (o : Owner) : (ofOwner o).countP (fun s => s.observesIn rs) = 0 := by
  cases o with
  | none => rfl
  | some r =>
    exact Multiset.countP_cons_of_neg (p := fun s : Stake => s.observesIn rs) 0 Bool.false_ne_true

theorem countP_stakesOf_node {m : Nat} {next : Owner} (hr : w.records[r]? = some rec)
    (hn : rec.IsNode h m next prev) :
    (w.stakesOf r).countP (fun s => s.observesIn rs) = (ofSoft prev).countP fun s =>
      s.observesIn rs := by
  rw [stakesOf, object?_of_record hr, hn.object]
  show (tally ofItem [.node (Int64.ofNat m) .plain next prev]).countP _ = _
  rw [tally_cons, tally_nil, add_zero]
  show (ofOwner next + ofSoft prev).countP _ = _
  rw [Multiset.countP_add, countP_ofOwner, Nat.zero_add]

/-- Every node of a chain but the first observes the one before it. -/
theorem Linked.sum_stakesOf {qs : List RecordId} (hl : w.Linked h n prev (r :: rs))
    (hsub : ∀ q ∈ r :: rs, q ∈ qs) :
    ((r :: rs).map fun q => (w.stakesOf q).countP fun s => s.observesIn qs).sum =
      (ofSoft prev).countP (fun s => s.observesIn qs) + rs.length := by
  induction rs generalizing n prev r with
  | nil =>
    obtain ⟨⟨rec, hr, hnode⟩, -⟩ := hl
    rw [List.map_singleton, List.sum_singleton, countP_stakesOf_node hr hnode]
    rfl
  | cons q rs ih =>
    obtain ⟨⟨rec, hr, hnode⟩, -, t, -, hrest⟩ := hl
    have hback : (ofSoft (some ⟨r, some t⟩)).countP (fun s => s.observesIn qs) = 1 :=
      Multiset.countP_cons_of_pos (p := fun s : Stake => s.observesIn qs) 0
        (by simpa [observesIn] using hsub r List.mem_cons_self)
    rw [List.map_cons, List.sum_cons, countP_stakesOf_node hr hnode,
      ih hrest fun j hj => hsub j (List.mem_cons_of_mem r hj), hback, List.length_cons]
    omega

/-- The live observers of a chain are those outside it, and one for each node but the first. -/
theorem Sound.sum_liveObservers (hw : w.Sound) (hp : w.pending = []) (hl : w.Linked h n none rs) :
    (rs.map w.liveObservers).sum = (w.outsiders rs).card + rs.tail.length := by
  have hobserved : rs.map w.liveObservers =
      rs.map fun r => w.stakes.countP fun s => s.observesIn [r] := by
    refine List.map_congr_left fun r hr => ?_
    obtain ⟨rec, m, next, back, hrec, hnode⟩ := hl.node hr
    exact hw.liveObservers_eq hrec hnode.isAlive (by rw [hnode.kind]; rfl)
  have howners : (tally ofOwner w.owners.toList).countP (fun s => s.observesIn rs) = 0 := by
    rw [countP_tally, List.sum_eq_zero]
    simp [countP_ofOwner]
  have hchain : ((List.range w.records.size).filter (· ∈ rs)).Perm rs := by
    refine (List.perm_ext_iff_of_nodup (List.nodup_range.filter _) hl.nodup).mpr fun r => ?_
    rw [List.mem_filter, List.mem_range, decide_eq_true_iff, and_iff_right_iff_imp]
    intro hr
    obtain ⟨rec, -, -, -, hrec, -⟩ := hl.node hr
    exact (Array.getElem?_eq_some_iff.mp hrec).1
  -- the objects are those of the chain and those of other records
  have hobjects : tally ofRecord w.records.toList =
      tally w.stakesOf rs + tally w.stakesOf ((List.range w.records.size).filter (· ∉ rs)) := by
    have hsplit := List.filter_append_perm (· ∈ rs) (List.range w.records.size)
    rw [tally_ofRecord, ← tally_perm hsplit, tally_append, tally_perm hchain]
    simp only [decide_not]
  have hinside : (tally w.stakesOf rs).countP (fun s => s.observesIn rs) = rs.tail.length := by
    rw [countP_tally]
    cases rs with
    | nil => rfl
    | cons r rs => simpa using hl.sum_stakesOf fun q hq => hq
  rw [hobserved, ← countP_observesIn hl.nodup, outsiders, ← Multiset.countP_eq_card_filter,
    stakes, hp, hobjects]
  simp only [Multiset.countP_add, howners, hinside, tally_nil, Multiset.countP_zero]
  omega

end World

end Custody

import Custody.Proofs.Ledger.Stakes

/-! Where handles are. An owner or an observing handle that is in the inventory is in a
variable of the program, in an element of an object that is there or is just being
destroyed, or in a pending task. -/

namespace Custody

namespace Stake

variable {r : RecordId} {k : Watch}

theorem owns_mem_ofOwner {o : Owner} : .owns r ∈ ofOwner o ↔ o = some r := by
  cases o with
  | none => simp
  | some q => simp [eq_comm]

theorem watches_mem_ofSoft {s : Soft} : .watches k ∈ ofSoft s ↔ s = some k := by
  cases s with
  | none => simp
  | some j => simp [eq_comm]

@[simp] theorem owns_notMem_ofSoft (s : Soft) : .owns r ∉ ofSoft s := by cases s <;> simp

@[simp] theorem watches_notMem_ofOwner (o : Owner) : .watches k ∉ ofOwner o := by cases o <;> simp

theorem owns_mem_ofItem {i : Item} : .owns r ∈ ofItem i ↔ i.link = some r := by
  simp [ofItem, owns_mem_ofOwner]

theorem watches_mem_ofItem {i : Item} : .watches k ∈ ofItem i ↔ i.back = some k := by
  simp [ofItem, watches_mem_ofSoft]

theorem mem_ofRecord {s : Stake} {rec : Record} :
    s ∈ ofRecord rec ↔ ∃ items, rec.object = some items ∧ ∃ i ∈ items, s ∈ ofItem i := by
  cases ho : rec.object with
  | none => simp [ofRecord, ho]
  | some items => simp [ofRecord, ho, mem_tally]

end Stake

open Stake

namespace World

variable {w : World} {r : RecordId} {k : Watch}

/-- Whether an element is in an object that is there, or is just to be destroyed. -/
def HasItem (w : World) (i : Item) : Prop :=
  (∃ rec ∈ w.records, ∃ items, rec.object = some items ∧ i ∈ items) ∨ .dropItem i ∈ w.pending

/-- Whether some owner holds a record: in a variable, in an element, or on its way out. -/
def IsOwned (w : World) (r : RecordId) : Prop :=
  some r ∈ w.owners ∨ (∃ i, w.HasItem i ∧ i.link = some r) ∨ .dropOwner (some r) ∈ w.pending

/-- Whether an observing handle exists: in a variable, in an element, or on its way out. -/
def IsHeld (w : World) (k : Watch) : Prop :=
  (∃ p, w.soft? p = some (some k)) ∨ (∃ i, w.HasItem i ∧ i.back = some k) ∨
    .dropSoft (some k) ∈ w.pending

theorem owns_mem_stakes : .owns r ∈ w.stakes ↔ w.IsOwned r := by
  have htask (t : Task) : .owns r ∈ ofTask t ↔
      (∃ i, t = .dropItem i ∧ i.link = some r) ∨ t = .dropOwner (some r) := by
    cases t <;> simp [ofTask, owns_mem_ofOwner, owns_mem_ofItem]
  simp only [stakes, Multiset.mem_add, mem_tally, owns_mem_ofOwner, owns_notMem_ofSoft,
    ofScan, ofWalk, mem_ofRecord, owns_mem_ofItem, htask, IsOwned, HasItem, Array.mem_toList_iff,
    or_self, and_false,
    exists_false, or_false, exists_eq_right]
  constructor
  · rintro ((ho | ⟨rec, hrec, items, hobj, i, hi, hl⟩) | ⟨t, ht, ⟨i, rfl, hl⟩ | rfl⟩)
    · exact .inl ho
    · exact .inr (.inl ⟨i, .inl ⟨rec, hrec, items, hobj, hi⟩, hl⟩)
    · exact .inr (.inl ⟨i, .inr ht, hl⟩)
    · exact .inr (.inr ht)
  · rintro (ho | ⟨i, ⟨rec, hrec, items, hobj, hi⟩ | ht, hl⟩ | ht)
    · exact .inl (.inl ho)
    · exact .inl (.inr ⟨rec, hrec, items, hobj, i, hi, hl⟩)
    · exact .inr ⟨_, ht, .inl ⟨i, rfl, hl⟩⟩
    · exact .inr ⟨_, ht, .inr rfl⟩

theorem soft?_of_soft {p : SoftPlace} (h : w.soft p = some k) : w.soft? p = some (some k) := by
  unfold soft at h
  cases hp : w.soft? p with
  | none => simp [hp] at h
  | some s => simpa [hp] using h

theorem exists_soft?_eq_some : (∃ p, w.soft? p = some (some k)) ↔
    some k ∈ w.softs ∨ (∃ c ∈ w.scans, c.array = some k) ∨
      ∃ c ∈ w.walks, c.node = some k ∨ c.buckets.array = some k := by
  constructor
  · rintro ⟨p, hp⟩
    cases p with
    | soft i => exact .inl (Array.mem_of_getElem? hp)
    | scan i =>
      obtain ⟨c, hc, hk⟩ := Option.map_eq_some_iff.mp hp
      exact .inr (.inl ⟨c, Array.mem_of_getElem? hc, hk⟩)
    | node i =>
      obtain ⟨c, hc, hk⟩ := Option.map_eq_some_iff.mp hp
      exact .inr (.inr ⟨c, Array.mem_of_getElem? hc, .inl hk⟩)
    | buckets i =>
      obtain ⟨c, hc, hk⟩ := Option.map_eq_some_iff.mp hp
      exact .inr (.inr ⟨c, Array.mem_of_getElem? hc, .inr hk⟩)
  · rintro (hs | ⟨c, hc, hk⟩ | ⟨c, hc, hk | hk⟩)
    · obtain ⟨i, hi⟩ := Array.mem_iff_getElem?.mp hs
      exact ⟨.soft i, hi⟩
    · obtain ⟨i, hi⟩ := Array.mem_iff_getElem?.mp hc
      exact ⟨.scan i, by simp [soft?, hi, hk]⟩
    · obtain ⟨i, hi⟩ := Array.mem_iff_getElem?.mp hc
      exact ⟨.node i, by simp [soft?, hi, hk]⟩
    · obtain ⟨i, hi⟩ := Array.mem_iff_getElem?.mp hc
      exact ⟨.buckets i, by simp [soft?, hi, hk]⟩

theorem watches_mem_stakes : .watches k ∈ w.stakes ↔ w.IsHeld k := by
  have htask (t : Task) : .watches k ∈ ofTask t ↔
      (∃ i, t = .dropItem i ∧ i.back = some k) ∨ t = .dropSoft (some k) := by
    cases t <;> simp [ofTask, watches_mem_ofSoft, watches_mem_ofItem]
  simp only [stakes, Multiset.mem_add, mem_tally, watches_mem_ofSoft,
    watches_notMem_ofOwner, ofScan, ofWalk, mem_ofRecord, watches_mem_ofItem, htask, IsHeld,
    HasItem, Array.mem_toList_iff, and_false,
    exists_false, false_or, exists_eq_right,
    exists_soft?_eq_some]
  constructor
  · rintro ((((hs | hc) | hk) | ⟨rec, hrec, items, hobj, i, hi, hl⟩) | ⟨t, ht, ⟨i, rfl, hl⟩ | rfl⟩)
    · exact .inl (.inl hs)
    · exact .inl (.inr (.inl hc))
    · exact .inl (.inr (.inr hk))
    · exact .inr (.inl ⟨i, .inl ⟨rec, hrec, items, hobj, hi⟩, hl⟩)
    · exact .inr (.inl ⟨i, .inr ht, hl⟩)
    · exact .inr (.inr ht)
  · rintro ((hs | hc | hk) | ⟨i, ⟨rec, hrec, items, hobj, hi⟩ | ht, hl⟩ | ht)
    · exact .inl (.inl (.inl (.inl hs)))
    · exact .inl (.inl (.inl (.inr hc)))
    · exact .inl (.inl (.inr hk))
    · exact .inl (.inr ⟨rec, hrec, items, hobj, i, hi, hl⟩)
    · exact .inr ⟨_, ht, .inl ⟨i, rfl, hl⟩⟩
    · exact .inr ⟨_, ht, .inr rfl⟩

end World

end Custody

import Custody.Proofs.Tally
import Custody.World.Action

/-! The inventory of all handles. A stake in a record is a handle that refers to it or
a task that is still to be done on it; `World.stakes` collects them from every place
where a handle can be: variables, elements of objects, pending tasks. Moving a handle
leaves the inventory as it is. -/

namespace Custody

inductive Stake where
  /-- An owner holds the record. -/
  | owns (r : RecordId)
  /-- An observing handle. -/
  | watches (k : Watch)
  /-- A handle has gone, and its record still counts it. -/
  | leaves (r : RecordId)
  /-- The object is gone; its observers are still to be told and its block is still to
  be released. -/
  | retires (r : RecordId)
  deriving DecidableEq

namespace Stake

def ofOwner : Owner → Multiset Stake
  | none => 0
  | some r => {.owns r}

def ofSoft : Soft → Multiset Stake
  | none => 0
  | some k => {.watches k}

def ofItem (i : Item) : Multiset Stake := ofOwner i.link + ofSoft i.back

def ofScan (s : Scan) : Multiset Stake := ofSoft s.array

def ofWalk (k : Walk) : Multiset Stake := ofSoft k.node + ofScan k.buckets

def ofRecord (r : Record) : Multiset Stake := tally ofItem (r.object.getD [])

def ofTask : Task → Multiset Stake
  | .dropOwner o => ofOwner o
  | .dropSoft s => ofSoft s
  | .dropItem i => ofItem i
  | .retire r => {.retires r}
  | .forget r => {.leaves r}
  | .abandon .. => 0

@[simp] theorem ofOwner_none : ofOwner none = 0 := rfl
@[simp] theorem ofOwner_some (r : RecordId) : ofOwner (some r) = {.owns r} := rfl
@[simp] theorem ofSoft_none : ofSoft none = 0 := rfl
@[simp] theorem ofSoft_some (k : Watch) : ofSoft (some k) = {.watches k} := rfl

end Stake

open Stake

namespace World

/-- All handles there are, and all that pending tasks have still to do on records. -/
def stakes (w : World) : Multiset Stake :=
  tally ofOwner w.owners.toList + tally ofSoft w.softs.toList + tally ofScan w.scans.toList +
    tally ofWalk w.walks.toList + tally ofRecord w.records.toList + tally ofTask w.pending

variable {w : World}

/-! ### Variables -/

theorem stakes_setOwner {i : Nat} {b : Owner} (h : w.owner? i = some b) (o : Owner) :
    (w.setOwner i o).stakes + ofOwner b = w.stakes + ofOwner o := by
  have := tally_set (f := ofOwner) (l := w.owners.toList) (by simpa [owner?] using h) o
  simp only [stakes, setOwner, Array.toList_setIfInBounds]
  grind

theorem owner?_setOwner_self {i : Nat} {b : Owner} (h : w.owner? i = some b) (o : Owner) :
    (w.setOwner i o).owner? i = some o := by
  have hi := (Array.getElem?_eq_some_iff.mp h).1
  simp [owner?, setOwner, hi]

theorem owner?_setOwner_of_eq {i j : Nat} {b : Owner} (h : w.owner? j = some b) :
    (w.setOwner i b).owner? j = some b := by
  by_cases hij : i = j
  · subst hij
    exact owner?_setOwner_self h b
  · simpa [owner?, setOwner, hij] using h

/-- What an owner variable held is given up when the variable is emptied. -/
theorem stakes_setOwner_none (i : Nat) :
    (w.setOwner i none).stakes + ofOwner (w.owner i) = w.stakes := by
  cases h : w.owner? i with
  | none =>
    have hi : w.setOwner i none = w := by
      have hi : w.owners.size ≤ i := by simpa [owner?] using h
      simp [setOwner, Array.setIfInBounds_eq_of_size_le hi]
    simp [owner, h, hi]
  | some b =>
    have := stakes_setOwner h none
    simpa [owner, h] using this

theorem stakes_swapOwners (i j : Nat) : (w.swapOwners i j).stakes = w.stakes := by
  unfold swapOwners
  split
  · rename_i a b ha hb
    split_ifs
    · rfl
    · have h₁ := stakes_setOwner ha b
      have h₂ := stakes_setOwner (owner?_setOwner_of_eq (i := i) hb) a
      exact add_right_cancel (h₂.trans h₁)
  · rfl

theorem stakes_setSoft {p : SoftPlace} {b : Soft} (h : w.soft? p = some b) (s : Soft) :
    (w.setSoft p s).stakes + ofSoft b = w.stakes + ofSoft s := by
  cases p with
  | soft i =>
    have := tally_set (f := ofSoft) (l := w.softs.toList) (by simpa [soft?] using h) s
    simp only [stakes, setSoft, Array.toList_setIfInBounds]
    grind
  | scan i =>
    obtain ⟨c, hc, rfl⟩ := Option.map_eq_some_iff.mp h
    have := tally_modify (f := ofScan) (l := w.scans.toList) (by simpa using hc)
      fun c => { c with array := s }
    simp only [stakes, setSoft, Array.toList_modify, ofScan] at this ⊢
    grind
  | node i =>
    obtain ⟨k, hk, rfl⟩ := Option.map_eq_some_iff.mp h
    have := tally_modify_part (f := ofWalk) (l := w.walks.toList) (by simpa using hk)
      (g := fun k => { k with node := s }) rfl rfl
    simp only [stakes, setSoft, Array.toList_modify]
    grind
  | buckets i =>
    obtain ⟨k, hk, rfl⟩ := Option.map_eq_some_iff.mp h
    have := tally_modify_part (f := ofWalk) (l := w.walks.toList) (by simpa using hk)
      (g := fun k => { k with buckets := { k.buckets with array := s } }) (add_comm _ _)
        (add_comm _ _)
    simp only [ofScan] at this
    simp only [stakes, setSoft, Array.toList_modify]
    grind

theorem soft?_setSoft (p q : SoftPlace) (s : Soft) :
    (w.setSoft p s).soft? q = if p = q then (w.soft? q).map fun _ => s else w.soft? q := by
  cases p <;> cases q <;>
    simp only [soft?, setSoft, Array.getElem?_setIfInBounds, Array.getElem?_modify] <;>
    grind

theorem soft?_setSoft_of_eq {p q : SoftPlace} {b : Soft} (h : w.soft? q = some b) :
    (w.setSoft p b).soft? q = some b := by
  rw [soft?_setSoft, h]
  split_ifs <;> rfl

theorem stakes_swapSofts (p q : SoftPlace) : (w.swapSofts p q).stakes = w.stakes := by
  unfold swapSofts
  split
  · rename_i a b ha hb
    split_ifs
    · have h₁ := stakes_setSoft ha b
      have h₂ := stakes_setSoft (soft?_setSoft_of_eq (p := p) hb) a
      exact add_right_cancel (h₂.trans h₁)
    · rfl
  · rfl

/-- What an observing variable held is given up when the variable is emptied. -/
theorem stakes_vacate (p : SoftPlace) : (w.vacate p).stakes + ofSoft (w.soft p) = w.stakes := by
  cases h : w.soft? p with
  | some b =>
    have hb := stakes_setSoft h none
    have hs : (w.vacate p).stakes = (w.setSoft p none).stakes := by
      cases p with
      | soft i | node i => rfl
      | scan i =>
        have hv : tally ofScan (w.scans.toList.modify i fun _ => ⟨none, .origin⟩) =
            tally ofScan (w.scans.toList.modify i fun c => { c with array := none }) :=
          tally_modify_congr fun _ => rfl
        simp only [stakes, vacate, setSoft, Array.toList_modify, hv]
      | buckets i =>
        have hv : tally ofWalk
            (w.walks.toList.modify i fun k => { k with buckets := ⟨none, .origin⟩ }) =
            tally ofWalk (w.walks.toList.modify i fun k =>
              { k with buckets := { k.buckets with array := none } }) :=
          tally_modify_congr fun _ => rfl
        simp only [stakes, vacate, setSoft, Array.toList_modify, hv]
    rw [hs]
    simpa [soft, h] using hb
  | none =>
    have hs : (w.vacate p).stakes = w.stakes := by
      cases p with
      | soft i =>
        have hi : w.softs.size ≤ i := by simpa [soft?] using h
        simp [stakes, vacate, setSoft, Array.setIfInBounds_eq_of_size_le hi]
      | scan i =>
        have hi : w.scans.toList.length ≤ i := by simpa [soft?] using h
        simp [stakes, vacate, List.modify_eq_self hi]
      | node i | buckets i =>
        have hi : w.walks.toList.length ≤ i := by simpa [soft?] using h
        simp [stakes, vacate, setSoft, List.modify_eq_self hi]
    simp [soft, h, hs]

theorem stakes_pushOwner (o : Owner) :
    { w with owners := w.owners.push o }.stakes = ofOwner o + w.stakes := by
  simp only [stakes, Array.toList_push, tally_append, tally_cons, tally_nil, add_zero]
  ac_rfl

theorem stakes_pushSoft (s : Soft) :
    { w with softs := w.softs.push s }.stakes = ofSoft s + w.stakes := by
  simp only [stakes, Array.toList_push, tally_append, tally_cons, tally_nil, add_zero]
  ac_rfl

theorem stakes_pushScan (c : Scan) :
    { w with scans := w.scans.push c }.stakes = ofSoft c.array + w.stakes := by
  simp only [stakes, Array.toList_push, tally_append, tally_cons, tally_nil, add_zero, ofScan]
  ac_rfl

theorem stakes_pushWalk (k : Walk) :
    { w with walks := w.walks.push k }.stakes =
      ofSoft k.node + ofSoft k.buckets.array + w.stakes := by
  simp only [stakes, Array.toList_push, tally_append, tally_cons, tally_nil, add_zero,
    ofWalk, ofScan]
  ac_rfl

/-! ### Tasks and records -/

@[simp] theorem stakes_schedule (ts : List Task) :
    (w.schedule ts).stakes = tally ofTask ts + w.stakes := by
  simp only [stakes, schedule, tally_append]
  ac_rfl

/-- A task that is taken off the front takes its stakes along. -/
theorem stakes_pop {t : Task} {rest : List Task} (h : w.pending = t :: rest) :
    w.stakes = ofTask t + { w with pending := rest }.stakes := by
  simp only [stakes, h, tally_cons]
  ac_rfl

@[simp] theorem stakes_noteRegistered (r : RecordId) (t : Option Ticket) :
    (w.noteRegistered r t).stakes = w.stakes := by
  unfold noteRegistered
  split
  · rfl
  · split_ifs <;> rfl

@[simp] theorem stakes_raise (p : Panic) : (w.raise p).stakes = w.stakes := by
  unfold raise
  split_ifs <;> rfl

theorem stakes_pushRecord (rec : Record) :
    { w with records := w.records.push rec }.stakes = ofRecord rec + w.stakes := by
  simp only [stakes, Array.toList_push, tally_append, tally_cons, tally_nil, add_zero]
  ac_rfl

theorem stakes_modifyRecord {r : RecordId} {rec : Record} (h : w.records[r]? = some rec)
    (f : Record → Record) :
    (w.modifyRecord r f).stakes + ofRecord rec = w.stakes + ofRecord (f rec) := by
  have := tally_modify (f := ofRecord) (l := w.records.toList) (by simpa using h) f
  simp only [stakes, modifyRecord, Array.toList_modify]
  grind

/-- Handles live in objects only; the other fields of a record do not matter. -/
theorem stakes_modifyRecord_of_eq {r : RecordId} {f : Record → Record}
    (h : ∀ rec, w.records[r]? = some rec → ofRecord (f rec) = ofRecord rec) :
    (w.modifyRecord r f).stakes = w.stakes := by
  have := tally_modify_of_eq (f := ofRecord) (l := w.records.toList) (i := r) (g := f)
    fun rec hrec => h rec (by simpa using hrec)
  simp only [stakes, modifyRecord, Array.toList_modify, this]

theorem stakes_setElement {r : RecordId} {rec : Record} {items : List Item} {i : Nat} {item : Item}
    (hrec : w.records[r]? = some rec) (ho : rec.object = some items) (hi : items[i]? = some item)
    (new : Item) : (w.setElement r i new).stakes + ofItem item = w.stakes + ofItem new := by
  have hr := stakes_modifyRecord hrec
    fun rec => { rec with object := rec.object.map fun items => items.set i new }
  have ht := tally_set (f := ofItem) hi new
  simp only [ofRecord, ho, Option.map_some, Option.getD_some] at hr
  exact exchange_trans hr ht

/-- When an object is taken out, its handles wait in the tasks that it becomes. -/
theorem stakes_demolish {r : RecordId} {rec : Record} {items : List Item}
    (hrec : w.records[r]? = some rec) (ho : rec.object = some items) :
    (w.demolish r).stakes = {.retires r} + w.stakes := by
  have hr := stakes_modifyRecord hrec fun rec =>
    { rec with
      object := none
      block := rec.block.map fun b => { b with contents := Item.image items } }
  simp only [ofRecord, ho, Option.getD_some, Option.getD_none, tally_nil, add_zero] at hr
  have ht : tally ofTask (items.map .dropItem ++ [.retire r]) =
      tally ofItem items + {.retires r} := by
    rw [tally_append, tally_map]
    simp only [ofTask, tally_cons, tally_nil, add_zero]
  simp only [demolish, hrec, ho, stakes_schedule, ht]
  grind

/-- When a record counts one handle fewer, no handle changes. -/
theorem stakes_forget (r : RecordId) :
    (w.forget r).stakes = w.stakes ∨ (w.forget r).stakes = {.retires r} + w.stakes := by
  have hm : (w.modifyRecord r fun rec => { rec with handles := rec.handles - 1 }).stakes =
      w.stakes :=
    stakes_modifyRecord_of_eq fun _ _ => rfl
  simp only [forget]
  split_ifs
  · generalize w.modifyRecord r _ = v at hm
    cases hr : v.records[r]? with
    | none => exact .inl (by simp only [demolish, hr, hm])
    | some rec =>
      cases ho : rec.object with
      | none => exact .inl (by simp only [demolish, hr, ho, hm])
      | some items => exact .inr (by rw [stakes_demolish hr ho, hm])
  · exact .inl hm

@[simp] theorem stakes_invalidate (r : RecordId) : (w.invalidate r).stakes = w.stakes := by
  unfold invalidate
  split
  · rfl
  · exact stakes_modifyRecord_of_eq fun _ _ => rfl

@[simp] theorem stakes_returnBlock (r : RecordId) : (w.returnBlock r).stakes = w.stakes := by
  unfold returnBlock
  split
  · rfl
  · split
    · rfl
    · exact stakes_modifyRecord_of_eq fun _ _ => rfl

@[simp] theorem stakes_orphan (r : RecordId) : (w.orphan r).stakes = w.stakes := by
  unfold orphan
  split_ifs
  · rfl
  · rw [stakes_invalidate]
    exact stakes_modifyRecord_of_eq fun _ _ => rfl

theorem ofRecord_enrol (rec : Record) : ofRecord rec.enrol = ofRecord rec := by
  unfold Record.enrol
  split_ifs <;> rfl

theorem ofRecord_deregister (rec : Record) (t : Option Ticket) :
    ofRecord (rec.deregister t) = ofRecord rec := by
  cases t <;> rfl

/-- A finalizer may copy the handle it looks at, but drops the copy again. -/
@[simp] theorem stakes_copyBriefly (s : Soft) : (w.copyBriefly s).2.stakes = w.stakes := by
  unfold copyBriefly
  split
  · rfl
  · split
    · rfl
    · split
      · rfl
      · rw [stakes_noteRegistered, stakes_modifyRecord_of_eq fun rec _ => ofRecord_deregister rec _,
          stakes_modifyRecord_of_eq fun rec _ => ofRecord_enrol rec]

@[simp] theorem stakes_finalize (value : Int64) (f : Finalizer) (prev : Soft) :
    (w.finalize value f prev).stakes = w.stakes := by
  have hlog : ∀ (v : World) log, { v with log := log }.stakes = v.stakes := fun _ _ => rfl
  unfold finalize
  split_ifs <;> simp [hlog]

/-- An element that is destroyed leaves its handles to tasks of their own. -/
theorem stakes_dropItem (i : Item) : (w.dropItem i).stakes = ofItem i + w.stakes := by
  cases i with
  | node value f next prev => simp [dropItem, ofTask, ofItem, Item.link, Item.back]
  | bucket head => simp [dropItem, ofTask, ofItem, Item.link, Item.back]
  | entry key next =>
    rw [dropItem, stakes_schedule]
    simp only [tally_cons, tally_nil, ofTask, ofItem, Item.link, Item.back, ofSoft_none, add_zero]
    rfl
  | unit | int | byte => simp [dropItem, ofItem, Item.link, Item.back]

/-! ### Exchanges with objects -/

@[simp] theorem ofItem_set (v : Int) (i : Item) : ofItem (i.set v) = ofItem i := by cases i <;> rfl

@[simp] theorem ofItem_seed (s : Seed) : ofItem s.item = 0 := by cases s <;> rfl

theorem ofItem_withLink {i : Item} (h : i.hasLink = true) (o : Owner) :
    ofItem (i.withLink o) + ofOwner i.link = ofItem i + ofOwner o := by
  cases i with
  | node | entry | bucket =>
    simp only [ofItem, Item.withLink, Item.link, Item.back]
    ac_rfl
  | unit | int | byte => simp [Item.hasLink] at h

theorem ofItem_withBack {i : Item} (h : i.hasBack = true) (s : Soft) :
    ofItem (i.withBack s) + ofSoft i.back = ofItem i + ofSoft s := by
  cases i with
  | node =>
    simp only [ofItem, Item.withBack, Item.link, Item.back]
    ac_rfl
  | unit | int | byte | bucket | entry => simp [Item.hasBack] at h

/-- The element of a guarded object is in that object. -/
theorem element?_eq_some {guard : Guard} {i : Nat} {item : Item}
    (h : w.element? guard i = some item) :
    ∃ rec items, w.records[guard.record]? = some rec ∧ rec.object = some items ∧
      items[i]? = some item := by
  unfold element? at h
  split_ifs at h
  obtain ⟨items, ho, hi⟩ := Option.bind_eq_some_iff.mp h
  obtain ⟨rec, hrec, ho⟩ := Option.bind_eq_some_iff.mp ho
  exact ⟨rec, items, hrec, ho, hi⟩

theorem stakes_exchangeLink (g i j : Nat) : (w.exchangeLink g i j).stakes = w.stakes := by
  unfold exchangeLink
  split
  · rename_i guard o _ ho
    split
    · rename_i item hitem
      split_ifs with hl
      · obtain ⟨rec, items, hrec, hobj, hi⟩ := element?_eq_some hitem
        have hset := stakes_setElement hrec hobj hi (item.withLink o)
        have hown := stakes_setOwner (w := w.setElement guard.record i (item.withLink o)) (i := j)
          (b := o) ho item.link
        have hlink := ofItem_withLink (i := item) (by simp_all) o
        exact add_right_cancel (hown.trans (exchange_trans hset hlink))
      · rfl
    · rfl
  · rfl

theorem stakes_exchangeBack (g i : Nat) (p : SoftPlace) :
    (w.exchangeBack g i p).stakes = w.stakes := by
  unfold exchangeBack
  split
  · rename_i guard s _ hs
    split
    · rename_i item hitem
      split_ifs with hb
      · obtain ⟨rec, items, hrec, hobj, hi⟩ := element?_eq_some hitem
        have hset := stakes_setElement hrec hobj hi (item.withBack s)
        have hp : (w.setElement guard.record i (item.withBack s)).soft? p = some s := by
          cases p <;> exact hs
        have hsoft := stakes_setSoft hp item.back
        have hback := ofItem_withBack (i := item) (by simp_all) s
        exact add_right_cancel (hsoft.trans (exchange_trans hset hback))
      · rfl
    · rfl
  · rfl

theorem stakes_put (g : Nat) (v : Int) : (w.put g v).stakes = w.stakes := by
  unfold put
  split
  · rfl
  · refine stakes_modifyRecord_of_eq fun rec _ => ?_
    cases ho : rec.object with
    | none => simp [ofRecord, ho]
    | some items =>
      simp only [ofRecord, ho, Option.map_some, Option.getD_some]
      refine tally_mapIdx_of_eq fun i item => ?_
      split_ifs
      · exact ofItem_set v item
      · rfl

/-- Values that no handle was stored in yet. -/
theorem tally_items (p : Plan) (n : Nat) : tally ofItem (p.items n) = 0 := by
  refine tally_eq_zero fun i hi => ?_
  obtain ⟨j, -, rfl⟩ := List.mem_map.mp hi
  exact ofItem_seed _

/-! ### Handles that are let go -/

/-- A handle that is let go waits in a task. -/
theorem stakes_discardOwner (i : Nat) : (w.discardOwner i).stakes = w.stakes := by
  unfold discardOwner
  split_ifs
  · rfl
  · rw [stakes_schedule, tally_cons, tally_nil, add_zero, add_comm]
    exact stakes_setOwner_none i

theorem stakes_discardSoft (p : SoftPlace) : (w.discardSoft p).stakes = w.stakes := by
  unfold discardSoft
  split_ifs
  · rfl
  · rw [stakes_schedule, tally_cons, tally_nil, add_zero, add_comm]
    exact stakes_vacate p

theorem stakes_scrap (s : Seed) : (w.scrap s).stakes = w.stakes := by
  rw [scrap, stakes_schedule]
  simp [ofTask]

theorem stakes_scrapNode (v : Int64) (f : Finalizer) (i : Nat) (p : SoftPlace) :
    (w.scrapNode v f i p).stakes = w.stakes := by
  unfold scrapNode
  split_ifs
  · have hown := stakes_setOwner_none (w := w) i
    have hsoft := stakes_vacate (w := w.setOwner i none) p
    have hsame : (w.setOwner i none).soft p = w.soft p := by cases p <;> rfl
    rw [hsame] at hsoft
    rw [stakes_schedule, tally_cons, tally_nil, add_zero, ← hown, ← hsoft]
    simp only [ofTask, ofItem, Item.link, Item.back]
    ac_rfl
  · rfl

theorem stakes_moveScan (i : Nat) (m : Position.Move) : (w.moveScan i m).stakes = w.stakes := by
  have := tally_modify_of_eq (f := ofScan) (l := w.scans.toList) (i := i)
    (g := fun c => { c with position := c.position.move m }) fun _ _ => rfl
  simp only [stakes, moveScan, Array.toList_modify, this]

theorem stakes_moveWalk (i : Nat) (m : Position.Move) : (w.moveWalk i m).stakes = w.stakes := by
  have := tally_modify_of_eq (f := ofWalk) (l := w.walks.toList) (i := i)
    (g := fun k => { k with buckets := { k.buckets with position := k.buckets.position.move m } })
    fun _ _ => rfl
  simp only [stakes, moveWalk, Array.toList_modify, this]

end World

end Custody

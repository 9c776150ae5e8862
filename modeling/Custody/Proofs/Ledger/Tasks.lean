import Custody.Proofs.Ledger.Actions

/-! The pending tasks are a stack: a tick takes the first one off, and whatever is done
puts its own tasks on top. The task that ends the destruction of an object is put there
below the tasks of the object's elements, when the object is taken out of its record, and
at no other time. -/

namespace Custody

open Stake

namespace World

variable {u v w : World} {r : RecordId} {rec : Record}

/-- The object of a record, until its destruction starts. -/
def object? (w : World) (r : RecordId) : Option (List Item) := w.records[r]?.bind Record.object

/-- Tasks that can come on top at once: such as end no destruction, or those of an object
that is destroyed. -/
inductive Schedules (w : World) : List Task → Prop where
  | plain {ts : List Task} : (∀ q, .retire q ∉ ts) → Schedules w ts
  | destroy {r : RecordId} {items : List Item} {tail : List Task} : w.object? r = some items →
    (∀ q, .retire q ∉ tail) → Schedules w (items.map .dropItem ++ .retire r :: tail)

/-- From `w` to `v` tasks come on top of those that are pending. -/
def Stacks (w v : World) : Prop := ∃ ts, w.Schedules ts ∧ v.pending = ts ++ w.pending

theorem stacks_of_eq (h : v.pending = w.pending) : w.Stacks v := ⟨[], .plain (by simp), h⟩

theorem stacks_of_plain (ts : List Task) (hp : v.pending = ts ++ w.pending)
    (ht : ∀ q, .retire q ∉ ts) : w.Stacks v := ⟨ts, .plain ht, hp⟩

theorem pending_demolish (r : RecordId) : (w.demolish r).pending =
    ((w.object? r).elim [] fun items => items.map .dropItem ++ [.retire r]) ++ w.pending := by
  unfold demolish object?
  cases hr : w.records[r]? with
  | none => rfl
  | some rec => cases ho : rec.object <;> simp [ho, schedule, modifyRecord]

/-- An object is destroyed, with some tasks left to do afterwards. -/
theorem stacks_demolish (tail : List Task) (hp : u.pending = tail ++ w.pending)
    (ho : u.object? r = w.object? r) (ht : ∀ q, .retire q ∉ tail) : w.Stacks (u.demolish r) := by
  have hd := pending_demolish (w := u) r
  cases hw : w.object? r with
  | none =>
    rw [ho, hw, hp] at hd
    exact stacks_of_plain tail hd ht
  | some items =>
    rw [ho, hw, hp] at hd
    exact ⟨_, .destroy hw ht, by simpa using hd⟩

/-! ### Destruction -/

theorem stacks_dropItem (i : Item) : w.Stacks (w.dropItem i) := by
  cases i with
  | node value f next prev =>
    refine stacks_of_plain [.dropOwner next, .dropSoft prev] ?_ (by simp)
    simp only [dropItem, schedule, (keeps_finalize value f prev).pending]
  | bucket head => exact stacks_of_plain [.dropOwner head] rfl (by simp)
  | entry key next => exact stacks_of_plain [.dropOwner next] rfl (by simp)
  | unit | int | byte => exact stacks_of_eq rfl

theorem object?_modifyRecord {f : Record → Record} (hf : ∀ rec, (f rec).object = rec.object)
    (r q : RecordId) : (w.modifyRecord r f).object? q = w.object? q := by
  simp only [object?, modifyRecord, Array.getElem?_modify]
  split_ifs
  · cases w.records[q]? <;> simp [hf]
  · rfl

/-- A task that is done puts its own tasks on top. -/
theorem stacks_perform (t : Task) : w.Stacks (w.perform t) := by
  cases t with
  | dropOwner o =>
    cases o with
    | none => exact stacks_of_eq rfl
    | some r =>
      simp only [perform, dropOwner]
      split_ifs
      · have hk := (keeps_orphan (w := w.schedule [.forget r]) r).trans
          (keeps_raise (.fatal (.access .destroyedWhileBorrowed)))
        exact stacks_of_plain [.forget r] hk.pending (by simp)
      · exact stacks_demolish [.forget r] rfl rfl (by simp)
  | dropSoft s =>
    cases s with
    | none => exact stacks_of_eq rfl
    | some k => exact stacks_of_plain [.forget k.record] rfl (by simp)
  | dropItem i => exact stacks_dropItem i
  | retire r => exact stacks_of_eq ((keeps_invalidate r).trans (keeps_returnBlock r)).pending
  | forget r =>
    simp only [perform, forget]
    split_ifs
    · refine stacks_demolish [] rfl ?_ (by simp)
      exact object?_modifyRecord (f := Record.left) (fun _ => rfl) r r
    · exact stacks_of_eq rfl
  | abandon h b => exact stacks_of_eq rfl

/-! ### Every action -/

/-- An array that is given up leaves its elements and its block to tasks. -/
theorem stacks_construct (h : HeapId) (k : Kind) (p : Plan) : w.Stacks (w.construct h k p).2 := by
  rw [construct_eq]
  split
  · exact stacks_of_eq rfl
  · split
    · exact stacks_of_eq rfl
    · rename_i b v hv
      obtain ⟨arena, -, rfl⟩ := allocate_eq_ok hv
      split
      · refine stacks_of_plain _ (keeps_raise _).pending ?_
        simp
      · exact stacks_of_eq rfl

theorem stacks_resetOwner (i : Nat) : w.Stacks (w.resetOwner i).2 := by
  unfold resetOwner
  split
  · exact stacks_of_eq rfl
  · rename_i r _
    split_ifs
    · exact stacks_of_eq rfl
    · exact stacks_demolish [.forget r] rfl rfl (by simp)

theorem stacks_resetLink (h : w.Sound) (g i : Nat) : w.Stacks (w.resetLink g i).2 := by
  unfold resetLink
  split
  · exact stacks_of_eq rfl
  · rename_i guard hguard
    split
    · exact stacks_of_eq rfl
    · rename_i item _
      split
      · exact stacks_of_eq rfl
      · rename_i r _
        split_ifs with hb
        · exact stacks_of_eq rfl
        · have hne := h.ne_of_not_isBorrowed hguard (by simpa using hb)
          refine stacks_demolish [.forget r] rfl ?_ (by simp)
          simp only [object?, schedule, setElement, modifyRecord, Array.getElem?_modify, if_neg hne]

/-- An action other than a tick leaves the pending tasks in place. -/
theorem stacks_run (h : w.Sound) {a : Action} (ha : a ≠ .tick) : w.Stacks (a.run w) := by
  cases a with
  | construct k kind p => exact stacks_construct k kind p
  | scrap s => exact stacks_of_plain [.dropItem s.item] rfl (by simp)
  | scrapNode x f i p =>
    simp only [Action.run, scrapNode]
    split_ifs
    · refine stacks_of_plain [.dropItem (.node x f (w.owner i) (w.soft p))] ?_ (by simp)
      cases p <;> rfl
    · exact stacks_of_eq rfl
  | discardOwner i =>
    simp only [Action.run, discardOwner]
    split_ifs
    · exact stacks_of_eq rfl
    · exact stacks_of_plain [.dropOwner (w.owner i)] rfl (by simp)
  | discardSoft p =>
    simp only [Action.run, discardSoft]
    split_ifs
    · exact stacks_of_eq rfl
    · refine stacks_of_plain [.dropSoft (w.soft p)] ?_ (by simp)
      cases p <;> rfl
  | resetOwner i => exact stacks_resetOwner i
  | resetLink g i => exact stacks_resetLink h g i
  | lend s a =>
    refine stacks_of_eq ?_
    simp only [Action.run, lend]
    split
    · rfl
    · split
      · rfl
      · split <;> rfl
  | duplicate g =>
    refine stacks_of_eq ?_
    simp only [Action.run, duplicate]
    split
    · split <;> rfl
    · rfl
  | narrow g i => exact stacks_of_eq rfl
  | endBorrow g =>
    refine stacks_of_eq ?_
    simp only [Action.run, endBorrow]
    split <;> rfl
  | tick => exact absurd rfl ha
  | _ => exact stacks_of_eq (keeps_run (by trivial)).pending

/-- What is pending after any action: new tasks on top of the old ones, of which a tick
has taken off the first. -/
theorem pending_run (h : w.Sound) (a : Action) : ∃ ts rest, w.Schedules ts ∧
    (a.run w).pending = ts ++ rest ∧
    (w.pending = rest ∨ ∃ t, a = .tick ∧ w.pending = t :: rest) := by
  by_cases ha : a = .tick
  · subst ha
    cases hp : w.pending with
    | nil => exact ⟨[], [], .plain (by simp), by simp [Action.run, tick, hp], .inl rfl⟩
    | cons t rest =>
      obtain ⟨ts, hts, ht⟩ := stacks_perform (w := { w with pending := rest }) t
      have hsched : w.Schedules ts := by
        cases hts with
        | plain hq => exact .plain hq
        | destroy ho hq => exact .destroy ho hq
      refine ⟨ts, rest, hsched, ?_, .inr ⟨t, rfl, rfl⟩⟩
      simpa only [Action.run, tick, hp] using ht
  · obtain ⟨ts, hts, hp⟩ := stacks_run h ha
    exact ⟨ts, w.pending, hts, hp, .inl rfl⟩

/-! ### Destructions under way -/

theorem notMem_retires_ofOwner (r : RecordId) (o : Owner) : .retires r ∉ ofOwner o := by
  cases o <;> simp

theorem notMem_retires_ofSoft (r : RecordId) (s : Soft) : .retires r ∉ ofSoft s := by
  cases s <;> simp

theorem notMem_retires_ofItem (r : RecordId) (i : Item) : .retires r ∉ ofItem i := by
  simp [ofItem, notMem_retires_ofOwner, notMem_retires_ofSoft]

theorem count_retires_ofTask (r : RecordId) (t : Task) :
    (ofTask t).count (.retires r) = [t].count (.retire r) := by
  cases t with
  | retire q =>
    by_cases hq : q = r
    · simp [ofTask, hq]
    · simp [ofTask, hq, Ne.symm hq]
  | dropOwner o => simp [ofTask, notMem_retires_ofOwner]
  | dropSoft s => simp [ofTask, notMem_retires_ofSoft]
  | dropItem i => simp [ofTask, notMem_retires_ofItem]
  | forget | abandon => simp [ofTask]

theorem count_retires_tally (r : RecordId) (ts : List Task) :
    (tally ofTask ts).count (.retires r) = ts.count (.retire r) := by
  induction ts with
  | nil => rfl
  | cons t ts ih =>
    rw [tally_cons, Multiset.count_add, ih, count_retires_ofTask, ← List.count_append,
      List.singleton_append]

/-- Only tasks end a destruction. -/
theorem count_retires (r : RecordId) :
    w.stakes.count (.retires r) = w.pending.count (.retire r) := by
  have hzero {α : Type} {f : α → Multiset Stake} (hf : ∀ x, .retires r ∉ f x) (l : List α) :
      (tally f l).count (.retires r) = 0 := by
    refine Multiset.count_eq_zero_of_notMem fun hmem => ?_
    obtain ⟨x, -, hx⟩ := mem_tally.mp hmem
    exact hf x hx
  have hscan (c : Scan) : .retires r ∉ ofScan c := notMem_retires_ofSoft r c.array
  have hwalk (k : Walk) : .retires r ∉ ofWalk k := by simp [ofWalk, hscan, notMem_retires_ofSoft]
  have hrec (rec : Record) : .retires r ∉ ofRecord rec := by
    simp [ofRecord, mem_tally, notMem_retires_ofItem]
  simp only [stakes, Multiset.count_add, count_retires_tally, hzero (notMem_retires_ofOwner r),
    hzero (notMem_retires_ofSoft r), hzero hscan, hzero hwalk, hzero hrec, zero_add]

/-- The task that ends the destruction of an object is pending, once, from when the object
is gone until its block is. -/
theorem Sound.count_retire (h : w.Sound) (hr : w.records[r]? = some rec) :
    w.pending.count (.retire r) = rec.isRetiring.toNat := by
  rw [← count_retires, ← (h.agrees hr).retiring]
  exact (count_stakesIn (w := w) (.retires r)).symm

end World

end Custody

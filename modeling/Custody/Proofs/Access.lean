import Custody.Proofs.Borrowing
import Custody.Proofs.Scans.Fitting

/-! Access to one element of a range, by its index or from a scan. What an attempt is
answered is decided by the handle, then by the object, then by the guards in force, and last
by the position; every refusal leaves the world as it was, and an access that is granted
reaches that element and no other. An access that insists panics exactly where an attempt is
refused. Main result: `access_classified`. -/

namespace Custody

namespace World

variable {v w : World} {r : RecordId} {rec : Record} {s : Source} {a : Access} {items : List Item}
  {b : Borrow} {guard : Guard}

/-! ### Guards on an element -/

/-- The world in which one guard more is in force, and the record's borrow says so. -/
def lending (w : World) (b : Borrow) (guard : Guard) : World :=
  { w.modifyRecord guard.record fun rec => { rec with borrow := b } with
    guards := (w.nextGuard, guard) :: w.guards
    nextGuard := w.nextGuard + 1 }

theorem lend_of_take (hreach : w.reach s = .ok r) (hr : w.records[r]? = some rec)
    (hal : rec.alive = .ok items) (hb : rec.borrow.take a = .ok b) :
    w.lend s a = (.ok w.nextGuard, w.lending b ⟨r, a, s, .whole⟩) := by
  simp only [lend, hreach, hr, hal, hb]
  rfl

theorem guard?_lending : (w.lending b guard).guard? w.nextGuard = some guard := by
  simp [lending, guard?]

theorem object?_lending (q : RecordId) : (w.lending b guard).object? q = w.object? q :=
  object?_modifyRecord (f := fun rec => { rec with borrow := b }) (fun _ => rfl) guard.record q

theorem isRange_lending (q : RecordId) : (w.lending b guard).isRange q = w.isRange q := by
  simp only [lending, isRange, modifyRecord, Array.getElem?_modify]
  split_ifs
  · cases w.records[q]? <;> rfl
  · rfl

/-- The new guard can be told from those in force. -/
theorem Sound.ne_nextGuard (h : w.Sound) {g : Nat × Guard} (hg : g ∈ w.guards) :
    g.1 ≠ w.nextGuard :=
  (h.numbered g hg).ne

theorem Sound.narrow_lending (h : w.Sound) (i : Nat) :
    (w.lending b guard).narrow w.nextGuard i =
      w.lending b { guard with part := guard.part.narrow (w.isRange guard.record) i } := by
  have hold : ∀ f : Nat × Guard → Nat × Guard, (∀ g ∈ w.guards, f g = g) →
      w.guards.map f = w.guards :=
    fun f hf => (List.map_congr_left hf).trans (List.map_id' _)
  unfold narrow
  simp only [isRange_lending]
  simp only [lending, List.map_cons, if_true]
  rw [hold _ fun g hg => if_neg (h.ne_nextGuard hg)]

/-- A borrow that is given back leaves a record as it was. -/
theorem release_of_take (hb : rec.borrow.take a = .ok b) : b.release a = rec.borrow := by
  cases hrec : rec.borrow with
  | writer =>
    rw [hrec] at hb
    cases a <;> cases hb
  | readers n =>
    rw [hrec] at hb
    cases a with
    | shared =>
      cases hb
      rfl
    | exclusive =>
      cases n with
      | zero =>
        cases hb
        rfl
      | succ n => cases hb

theorem Sound.endBorrow_lending (h : w.Sound) (hr : w.records[guard.record]? = some rec)
    (hb : rec.borrow.take guard.access = .ok b) :
    (w.lending b guard).endBorrow w.nextGuard = { w with nextGuard := w.nextGuard + 1 } := by
  have hfilter : w.guards.filter (fun g => g.1 ≠ w.nextGuard) = w.guards :=
    List.filter_eq_self.mpr fun g hg => by simpa using h.ne_nextGuard hg
  have hrecords : (w.records.modify guard.record fun rec => { rec with borrow := b }).modify
      guard.record (fun rec => { rec with borrow := rec.borrow.release guard.access }) =
        w.records := by
    apply Array.ext_getElem?
    intro q
    rw [Array.getElem?_modify, Array.getElem?_modify]
    split_ifs with hq
    · rw [← hq, hr]
      simp only [Option.map_some, release_of_take hb]
    · rfl
  unfold endBorrow
  rw [guard?_lending]
  simp only [lending, modifyRecord, hrecords]
  rw [List.filter_cons_of_neg (by simp), hfilter]

/-- Writing through a guard on one element. -/
theorem object?_put_lending {i : Nat} {item : Item} (ho : w.object? r = some items)
    (hi : items[i]? = some item) (x : Int) (q : RecordId) :
    ((w.lending b ⟨r, .exclusive, s, .element i⟩).put w.nextGuard x).object? q =
      if q = r then some (items.set i (item.set x)) else w.object? q := by
  have hguard : (w.lending b ⟨r, .exclusive, s, .element i⟩).writable? w.nextGuard =
      some ⟨r, .exclusive, s, .element i⟩ := by
    rw [writable?, guard?_lending]
    rfl
  have hset : items.mapIdx (fun j old => if Part.covers (.element i) j then old.set x else old) =
      items.set i (item.set x) := by
    apply List.ext_getElem?
    intro j
    rw [List.getElem?_mapIdx, List.getElem?_set]
    by_cases hj : i = j
    · subst hj
      obtain ⟨hlt, -⟩ := List.getElem?_eq_some_iff.mp hi
      rw [hi, if_pos rfl, if_pos hlt]
      simp [Part.covers]
    · cases items[j]? <;> simp [Part.covers, hj, Ne.symm hj]
  have hput : (w.lending b ⟨r, .exclusive, s, .element i⟩).put w.nextGuard x =
      (w.lending b ⟨r, .exclusive, s, .element i⟩).modifyRecord r fun rec =>
        { rec with object := rec.object.map fun items =>
            items.mapIdx fun j old => if Part.covers (.element i) j then old.set x else old } := by
    rw [put, hguard]
  rw [hput, ← hset]
  have hsame : (w.lending b ⟨r, .exclusive, s, .element i⟩).object? q = w.object? q :=
    object?_lending q
  split_ifs with hq
  · subst hq
    rw [ho] at hsame
    obtain ⟨rec, hrec, hobj⟩ := Option.bind_eq_some_iff.mp hsame
    simp [object?, modifyRecord, Array.getElem?_modify, hrec, hobj]
  · rw [← hsame]
    simp [object?, modifyRecord, Array.getElem?_modify, Ne.symm hq]

/-! ### What decides an access -/

/-- What an access finds: a handle of nothing, an object that is gone, a guard in the way, or
an object that can be borrowed. -/
inductive Finds (w : World) (s : Source) (a : Access) : Prop where
  | null : w.referent s = none → w.reach s = .error .null → Finds w s a
  | gone (r : RecordId) : w.referent s = some r → w.isAlive r = false → w.reach s = .error .gone →
    Finds w s a
  | conflict (r : RecordId) (rec : Record) (items : List Item) (g : Nat × Guard) :
    w.referent s = some r → w.isAlive r = true → g ∈ w.guards → g.2.record = r →
    (a = .exclusive ∨ g.2.access = .exclusive) → w.reach s = .ok r → w.records[r]? = some rec →
    rec.alive = .ok items → rec.borrow.take a = .error (.conflict g.2.access) → Finds w s a
  | free (r : RecordId) (rec : Record) (items : List Item) (b : Borrow) : w.referent s = some r →
    w.isAlive r = true → w.Admits r a → w.reach s = .ok r → w.records[r]? = some rec →
    rec.alive = .ok items → rec.borrow.take a = .ok b → Finds w s a

theorem reach_of_referent_eq_none (hs : w.referent s = none) : w.reach s = .error .null := by
  cases s with
  | owner i =>
    rw [reach, show w.owner i = none from hs]
    rfl
  | soft p =>
    rw [reach, Option.map_eq_none_iff.mp hs]
    rfl

theorem Sound.reach_of_dead (h : w.Sound) (hs : w.referent s = some r) (ha : w.isAlive r = false) :
    w.reach s = .error .gone := by
  cases s with
  | owner i =>
    have hi : w.owners[i]? = some (some r) := by
      cases ho : w.owners[i]? with
      | none => simp [referent, owner, owner?, ho] at hs
      | some o => simpa [referent, owner, owner?, ho] using hs
    have howned : w.IsOwned r := .inl (Array.mem_of_getElem? hi)
    rw [h.isOwned_iff, ha] at howned
    cases howned
  | soft p =>
    obtain ⟨k, hk, rfl⟩ := Option.map_eq_some_iff.mp hs
    rw [reach, hk]
    exact watched_of_dead ha

theorem Sound.finds (h : w.Sound) (s : Source) (a : Access) : w.Finds s a := by
  cases hs : w.referent s with
  | none => exact .null hs (reach_of_referent_eq_none hs)
  | some r =>
    cases ha : w.isAlive r with
    | false => exact .gone r hs ha (h.reach_of_dead hs ha)
    | true =>
      have hreach := h.reach_of_alive hs ha
      obtain ⟨rec, hr, hrec⟩ := isAlive_iff.mp ha
      obtain ⟨items, hal⟩ := alive_of_isAlive hrec
      cases h.meets_take hr a with
      | granted hadmits htake =>
        obtain ⟨b, hb⟩ := htake
        exact .free r rec items b hs ha hadmits hreach hr hal hb
      | refused held hno hheld htake =>
        obtain ⟨g, hg, heq⟩ := List.countP_pos_iff.mp hheld
        obtain ⟨hgr, hga⟩ : g.2.record = r ∧ g.2.access = held := by simpa using heq
        refine .conflict r rec items g hs ha hg hgr ?_ hreach hr hal (hga ▸ htake)
        -- two readers are never in each other's way
        by_contra hboth
        obtain ⟨hshared, hread⟩ := not_or.mp hboth
        obtain rfl : a = .shared := by cases a <;> simp_all
        obtain rfl : held = .shared := by cases held <;> simp_all
        obtain ⟨-, -, hnone⟩ | ⟨-, hnone⟩ := h.borrow_cases hr
        · omega
        · exact hno hnone

theorem inspect_of_reach {e : AccessRefusal} (hreach : w.reach s = .error e) :
    w.inspect s a = .error e := by
  rw [inspect, hreach]
  rfl

theorem inspect_of_conflict {e : AccessRefusal} (hreach : w.reach s = .ok r)
    (hr : w.records[r]? = some rec) (hal : rec.alive = .ok items)
    (hb : rec.borrow.take a = .error e) : w.inspect s a = .error e := by
  simp [inspect, hreach, open?, hr, Record.open?, hal, hb, bind, Except.bind]

theorem open?_of_take (hr : w.records[r]? = some rec) (hal : rec.alive = .ok items)
    (hb : rec.borrow.take a = .ok b) : w.open? r a = .ok items := by
  simp [open?, hr, Record.open?, hal, hb, bind, Except.bind, pure, Except.pure]

theorem inspect_of_take (hreach : w.reach s = .ok r) (hr : w.records[r]? = some rec)
    (hal : rec.alive = .ok items) (hb : rec.borrow.take a = .ok b) :
    w.inspect s a = .ok (r, items) := by
  rw [inspect, hreach]
  change (w.open? r a >>= fun items => pure (r, items)) = _
  rw [open?_of_take hr hal hb]
  rfl

/-! ### The classification -/

/-- One guard more is in force, on element `i` of a range and on nothing else. What is
written through it changes that element, and an exchange through it finds no other. -/
structure Lends (w : World) (s : Source) (a : Access) (r : RecordId) (items : List Item) (i : Nat)
    (item : Item) (v : World) : Prop where
  lent : ∃ rec b part, w.records[r]? = some rec ∧ rec.borrow.take a = .ok b ∧
    v = w.lending b ⟨r, a, s, part⟩
  element : w.isRange r = true → v.guard? w.nextGuard = some ⟨r, a, s, .element i⟩
  writes : w.isRange r = true → a = .exclusive → ∀ x q, (v.put w.nextGuard x).object? q =
    if q = r then some (items.set i (item.set x)) else w.object? q
  others : ∀ guard, v.guard? w.nextGuard = some guard → ∀ j, j ≠ i → v.element? guard j = none

/-- How an access to the element with number `t` turns out, where `s` is the handle: the
first reason for a refusal that there is, or what the access grants. After a refusal for the
position the world is `spent`. -/
inductive Classifies {α : Type} (w : World) (s : Source) (a : Access) (t : Int) (spent : World)
    (grants : RecordId → List Item → Nat → Item → α → World → Prop) :
    Except Fault α × World → Prop where
  | null : w.referent s = none →
    Classifies w s a t spent grants (.error (.refused (.access .null)), w)
  | gone (r : RecordId) : w.referent s = some r → w.isAlive r = false →
    Classifies w s a t spent grants (.error (.refused (.access .gone)), w)
  /-- The guard in the way writes, or is in the way of a writer; its access is reported. -/
  | conflict (r : RecordId) (g : Nat × Guard) : w.referent s = some r → w.isAlive r = true →
    g ∈ w.guards → g.2.record = r → (a = .exclusive ∨ g.2.access = .exclusive) →
    Classifies w s a t spent grants (.error (.refused (.access (.conflict g.2.access))), w)
  | outOfRange (r : RecordId) (items : List Item) : w.referent s = some r → w.isAlive r = true →
    w.Admits r a → w.object? r = some items → ¬ (0 ≤ t ∧ t < items.length) →
    Classifies w s a t spent grants
      (.error (.refused (.access (.outOfRange (Position.reported t) items.length))), spent)
  | granted (r : RecordId) (items : List Item) (i : Nat) (item : Item) (x : α) (v : World) :
    w.referent s = some r → w.isAlive r = true → w.Admits r a → w.object? r = some items → t = i →
    items[i]? = some item → grants r items i item x v →
    Classifies w s a t spent grants (.ok x, v)

/-- What an insisting access makes of what an attempt is answered. -/
inductive Insists {α : Type} : Except Fault α × World → Except Fault α × World → Prop where
  | same (x : α) (v : World) : Insists (.ok x, v) (.ok x, v)
  | fatal (e : AccessRefusal) (v : World) : Insists (.error (.refused (.access e)), v)
      (.error (.panicked (.fatal (.access e))), v.raise (.fatal (.access e)))

theorem Classifies.insists {α : Type} {t : Int} {spent : World}
    {grants : RecordId → List Item → Nat → Item → α → World → Prop} {op : Op α}
    (h : w.Classifies s a t spent grants (op.run.run w)) :
    Insists (op.run.run w) ((Op.inManner .insist op).run.run w) := by
  rw [Op.run_insist]
  generalize op.run.run w = o at h
  cases h with
  | null | gone | conflict | outOfRange => exact .fatal _ _
  | granted => exact .same _ _

/-- The world after a guard that was ended at once: its number is used up, and nothing else
has changed. -/
def afterTrial (w : World) : World := { w with nextGuard := w.nextGuard + 1 }

theorem Sound.lends (h : w.Sound) {i : Nat} {item : Item} (hr : w.records[r]? = some rec)
    (hb : rec.borrow.take a = .ok b) (ho : w.object? r = some items) (hi : items[i]? = some item) :
    w.Lends s a r items i item ((w.lending b ⟨r, a, s, .whole⟩).narrow w.nextGuard i) := by
  rw [h.narrow_lending]
  refine ⟨⟨rec, b, _, hr, hb, rfl⟩, fun hrange => ?_, fun hrange ha x q => ?_,
    fun guard hg j hj => ?_⟩
  · rw [guard?_lending, hrange]
    rfl
  · subst ha
    rw [hrange]
    exact object?_put_lending ho hi x q
  · rw [guard?_lending] at hg
    obtain rfl := Option.some.inj hg
    have hspans : (Part.whole.narrow (w.isRange r) i).spans j = false := by
      cases w.isRange r <;> simp [Part.narrow, Part.spans, hj]
    rw [element?, hspans]
    rfl

/-- An attempt at a guard, where it is known what becomes of the borrow of the whole. -/
theorem Sound.lend_classified (h : w.Sound) {op : Op Nat} {t : Int}
    (herror : ∀ e, w.lend s a = (.error e, w) → op.run.run w = (.error (.refused (.access e)), w))
    (hok : ∀ r items v, w.referent s = some r → w.object? r = some items →
      w.lend s a = (.ok w.nextGuard, v) → v.scans = w.scans → v.guarded w.nextGuard = items →
      (∃ i : Nat, t = i ∧ i < items.length ∧
        op.run.run w = (.ok w.nextGuard, v.narrow w.nextGuard i)) ∨
      ¬ (0 ≤ t ∧ t < items.length) ∧ op.run.run w =
        (.error (.refused (.access (.outOfRange (Position.reported t) items.length))),
          v.endBorrow w.nextGuard)) :
    w.Classifies s a t w.afterTrial
      (fun r items i item g v => g = w.nextGuard ∧ w.Lends s a r items i item v)
        (op.run.run w) := by
  cases h.finds s a with
  | null hs hreach =>
    rw [herror .null (by simp only [lend, hreach])]
    exact .null hs
  | gone r hs ha hreach =>
    rw [herror .gone (by simp only [lend, hreach])]
    exact .gone r hs ha
  | conflict r rec items g hs ha hg hgr hway hreach hr hal hb =>
    rw [herror (.conflict g.2.access) (by simp only [lend, hreach, hr, hal, hb])]
    exact .conflict r g hs ha hg hgr hway
  | free r rec items b hs ha hadmits hreach hr hal hb =>
    have ho := object?_of_alive hr hal
    have hguard : (w.lending b ⟨r, a, s, .whole⟩).guard? w.nextGuard = some ⟨r, a, s, .whole⟩ :=
      guard?_lending
    have hguarded := guarded_eq hguard ((object?_lending r).trans ho)
    obtain ⟨i, ht, hi, hrun⟩ | ⟨ht, hrun⟩ :=
      hok r items _ hs ho (lend_of_take hreach hr hal hb) rfl hguarded
    · have hitem := List.getElem?_eq_getElem hi
      rw [hrun]
      exact .granted r items i _ _ _ hs ha hadmits ho ht hitem ⟨rfl, h.lends hr hb ho hitem⟩
    · rw [hrun, h.endBorrow_lending hr hb]
      exact .outOfRange r items hs ha hadmits ho ht

/-- An attempt to read an element. -/
theorem Sound.read_classified (h : w.Sound) {f : World → Except AccessRefusal Item} {t : Int}
    (herror : ∀ e, w.inspect s .shared = .error e → f w = .error e)
    (hok : ∀ r items, w.referent s = some r → w.object? r = some items →
      w.inspect s .shared = .ok (r, items) →
      (∃ (i : Nat) (item : Item), t = i ∧ items[i]? = some item ∧ f w = .ok item) ∨
      ¬ (0 ≤ t ∧ t < items.length) ∧
        f w = .error (.outOfRange (Position.reported t) items.length)) :
    w.Classifies s .shared t w (fun _ _ _ item x v => x = item ∧ v = w)
      ((Op.inspect f).run.run w) := by
  rw [Op.run_inspect_eq]
  cases h.finds s .shared with
  | null hs hreach =>
    rw [herror .null (inspect_of_reach hreach)]
    exact .null hs
  | gone r hs ha hreach =>
    rw [herror .gone (inspect_of_reach hreach)]
    exact .gone r hs ha
  | conflict r rec items g hs ha hg hgr hway hreach hr hal hb =>
    rw [herror (.conflict g.2.access) (inspect_of_conflict hreach hr hal hb)]
    exact .conflict r g hs ha hg hgr hway
  | free r rec items b hs ha hadmits hreach hr hal hb =>
    have ho := object?_of_alive hr hal
    obtain ⟨i, item, ht, hi, hf⟩ | ⟨ht, hf⟩ := hok r items hs ho (inspect_of_take hreach hr hal hb)
    · rw [hf]
      exact .granted r items i item _ _ hs ha hadmits ho ht hi ⟨rfl, rfl⟩
    · rw [hf]
      exact .outOfRange r items hs ha hadmits ho ht

/-! ### By index -/

theorem elementAt_cases (items : List Item) (i : UInt64) :
    (∃ item, items[i.toNat]? = some item ∧ elementAt items i = .ok item) ∨
      ¬ (0 ≤ (i.toNat : Int) ∧ (i.toNat : Int) < items.length) ∧
        elementAt items i = .error (.outOfRange (Position.reported i.toNat) items.length) := by
  rw [elementAt, Position.reported_of_word]
  cases hi : items[i.toNat]? with
  | some item => exact .inl ⟨item, rfl, rfl⟩
  | none =>
    have := List.getElem?_eq_none_iff.mp hi
    exact .inr ⟨by omega, rfl⟩

theorem Sound.lendElement_classified (h : w.Sound) (s : Source) (a : Access) (i : UInt64) :
    w.Classifies s a i.toNat w.afterTrial
      (fun r items i item g v => g = w.nextGuard ∧ w.Lends s a r items i item v)
      ((Op.lendElement s a i).run.run w) := by
  refine h.lend_classified (fun e he => ?_) fun r items v hs ho hlend hscans hguarded => ?_
  · rw [Op.run_lendElement_of_error (by rw [he]), he]
  · rw [Op.run_lendElement_of_ok (by rw [hlend]), hlend]
    dsimp only
    rw [hguarded]
    obtain ⟨item, hi, hat⟩ | ⟨hi, hat⟩ := elementAt_cases items i
    · exact .inl ⟨i.toNat, rfl, (List.getElem?_eq_some_iff.mp hi).1, by rw [hat]⟩
    · exact .inr ⟨hi, by rw [hat]⟩

theorem Sound.readElement_classified (h : w.Sound) (s : Source) (i : UInt64) :
    w.Classifies s .shared i.toNat w (fun _ _ _ item x v => x = item ∧ v = w)
      ((Op.readElement .attempt s i).run.run w) := by
  refine h.read_classified (f := (·.element s i)) (fun e he => ?_) fun r items hs ho hinspect => ?_
  · rw [element, he]
    rfl
  · have helement : w.element s i = elementAt items i := by
      rw [element, hinspect]
      rfl
    rw [helement]
    obtain ⟨item, hi, hat⟩ | ⟨hi, hat⟩ := elementAt_cases items i
    · exact .inl ⟨i.toNat, item, rfl, hi, hat⟩
    · exact .inr ⟨hi, hat⟩

/-! ### From a scan -/

/-- A scan measures against the object that it goes through. -/
theorem Reachable.length_scan (h : w.Reachable) {i : Nat}
    (hs : w.referent (.soft (.scan i)) = some r) (ho : w.object? r = some items) :
    (w.scan i).position.length.toNat = items.length := by
  obtain ⟨rec, hr, hobj⟩ := Option.bind_eq_some_iff.mp ho
  cases hc : w.scans[i]? with
  | none => simp [referent, soft, soft?, hc] at hs
  | some c =>
    have hrange : c.array.map Watch.record = some r := by simpa [referent, soft, soft?, hc] using hs
    have hfit := h.fitted hc
    rw [Fitted, hrange, rangeLength, hr, Option.map_some, Option.getD_some] at hfit
    rw [scan, hc, Option.getD_some, hfit, (h.measured hr).length items hobj]

theorem Reachable.aim_cases (h : w.Reachable) {i : Nat} (hs : w.referent (.soft (.scan i)) = some r)
    (ho : w.object? r = some items) (aim : Aim) :
    (∃ j, (w.scan i).position.aim items.length aim = .ok j ∧
      (w.scan i).position.target aim = j.toNat ∧ j.toNat < items.length) ∨
    (w.scan i).position.aim items.length aim =
        .error (.outOfRange (Position.reported ((w.scan i).position.target aim)) items.length) ∧
      ¬ (0 ≤ (w.scan i).position.target aim ∧ (w.scan i).position.target aim < items.length) := by
  rw [← h.length_scan hs ho]
  exact (w.scan i).position.aim_cases aim

theorem Reachable.lendScanned_classified (h : w.Reachable) (a : Access) (i : Nat) (aim : Aim) :
    w.Classifies (.soft (.scan i)) a ((w.scan i).position.target aim) w.afterTrial
      (fun r items j item g v => g = w.nextGuard ∧ w.Lends (.soft (.scan i)) a r items j item v)
      ((Op.lendScanned a i aim).run.run w) := by
  refine h.sound.lend_classified (fun e he => ?_) fun r items v hs ho hlend hscans hguarded => ?_
  · rw [Op.run_lendScanned_of_error (by rw [he]), he]
  · have hscan : v.scan i = w.scan i := by rw [scan, hscans, scan]
    rw [Op.run_lendScanned_of_ok (by rw [hlend]) aim (by rw [hlend]), hscan, hguarded]
    obtain ⟨j, haim, ht, hj⟩ | ⟨haim, ht⟩ := h.aim_cases hs ho aim
    · exact .inl ⟨j.toNat, ht, hj, by rw [haim]⟩
    · exact .inr ⟨ht, by rw [haim]⟩

theorem Reachable.readScan_classified (h : w.Reachable) (i : Nat) (aim : Aim) :
    w.Classifies (.soft (.scan i)) .shared ((w.scan i).position.target aim) w
      (fun _ _ _ item x v => x = item ∧ v = w) ((Op.readScan .attempt i aim).run.run w) := by
  refine h.sound.read_classified (f := (·.scanned i aim)) (fun e he => ?_)
    fun r items hs ho hinspect => ?_
  · rw [scanned, he]
    rfl
  · have hscanned : w.scanned i aim =
        ((w.scan i).position.aim items.length aim).bind (elementAt items) := by
      rw [scanned, hinspect]
      rfl
    rw [hscanned]
    obtain ⟨j, haim, ht, hj⟩ | ⟨haim, ht⟩ := h.aim_cases hs ho aim
    · have hitem := List.getElem?_eq_getElem hj
      refine .inl ⟨j.toNat, items[j.toNat], ht, hitem, ?_⟩
      rw [haim]
      simp only [Except.bind, elementAt, hitem]
    · exact .inr ⟨ht, by rw [haim]; rfl⟩

/-- How every access to an element turns out, attempted and insisting. -/
structure Accesses (w : World) : Prop where
  lendsElement : ∀ s a i,
    w.Classifies s a (i : UInt64).toNat w.afterTrial
      (fun r items i item g v => g = w.nextGuard ∧ w.Lends s a r items i item v)
      ((Op.lendElement s a i).run.run w) ∧
    Insists ((Op.lendElement s a i).run.run w)
      ((Op.inManner .insist (Op.lendElement s a i)).run.run w)
  readsElement : ∀ s i,
    w.Classifies s .shared (i : UInt64).toNat w (fun _ _ _ item x v => x = item ∧ v = w)
      ((Op.readElement .attempt s i).run.run w) ∧
    Insists ((Op.readElement .attempt s i).run.run w) ((Op.readElement .insist s i).run.run w)
  lendsScanned : ∀ a i aim,
    w.Classifies (.soft (.scan i)) a ((w.scan i).position.target aim) w.afterTrial
      (fun r items j item g v => g = w.nextGuard ∧ w.Lends (.soft (.scan i)) a r items j item v)
      ((Op.lendScanned a i aim).run.run w) ∧
    Insists ((Op.lendScanned a i aim).run.run w)
      ((Op.inManner .insist (Op.lendScanned a i aim)).run.run w)
  readsScan : ∀ i aim,
    w.Classifies (.soft (.scan i)) .shared ((w.scan i).position.target aim) w
      (fun _ _ _ item x v => x = item ∧ v = w) ((Op.readScan .attempt i aim).run.run w) ∧
    Insists ((Op.readScan .attempt i aim).run.run w) ((Op.readScan .insist i aim).run.run w)

/-- In every reachable world, in the midst of destruction too, for every owner, observing handle
and scan and every index and offset: an access to an element is refused because the handle
is empty, or else because the object is gone, or else because of a guard in the way, or else
because there is no such element; and otherwise it is granted, for that element alone. What
is refused changes nothing, but that the number of a guard may be used up, and insisting on
it panics; what is granted is granted to those who insist. -/
theorem access_classified (h : w.Reachable) : w.Accesses where
  lendsElement s a i :=
    have hclass := h.sound.lendElement_classified s a i
    ⟨hclass, hclass.insists⟩
  readsElement s i :=
    have hclass := h.sound.readElement_classified s i
    ⟨hclass, hclass.insists⟩
  lendsScanned a i aim :=
    have hclass := h.lendScanned_classified a i aim
    ⟨hclass, hclass.insists⟩
  readsScan i aim :=
    have hclass := h.readScan_classified i aim
    ⟨hclass, hclass.insists⟩

/-- On a row of two that is being read, a writer is refused for the readers, and a reader of
the sixth element for the index. -/
theorem access_classified_readTwice :
    (Op.lendElement (.owner 0) .exclusive 5).run.run readTwice =
        (.error (.refused (.access (.conflict .shared))), readTwice) ∧
      (Op.lendElement (.owner 0) .shared 5).run.run readTwice =
        (.error (.refused (.access (.outOfRange 5 2))), readTwice.afterTrial) := by
  have hx := access_classified (w := readTwice) (reachable_foldl _ _)
  have hs : readTwice.referent (.owner 0) = some 0 := by decide
  have ha : readTwice.isAlive 0 = true := by decide
  have ho : readTwice.object? 0 = some [.int 7, .int 7] := by decide
  have hguards : ∀ g ∈ readTwice.guards, g.2.access = .shared := by decide
  constructor
  · have hclass := (hx.lendsElement (.owner 0) .exclusive 5).1
    generalize (Op.lendElement (.owner 0) .exclusive 5).run.run readTwice = o at hclass ⊢
    have hguard : readTwice.IsGuarded 0 :=
      ⟨(1, ⟨0, .shared, .soft (.scan 0), .element 0⟩), by decide, rfl⟩
    cases hclass with
    | null hn => simp [hs] at hn
    | gone r hr hd =>
      obtain rfl := Option.some.inj (hs.symm.trans hr)
      simp [ha] at hd
    | conflict r g _ _ hg => rw [hguards g hg]
    | outOfRange r items hr _ hadmits | granted r items i item x v hr _ hadmits =>
      obtain rfl := Option.some.inj (hs.symm.trans hr)
      exact absurd hguard hadmits
  · have hclass := (hx.lendsElement (.owner 0) .shared 5).1
    generalize (Op.lendElement (.owner 0) .shared 5).run.run readTwice = o at hclass ⊢
    cases hclass with
    | null hn => simp [hs] at hn
    | gone r hr hd =>
      obtain rfl := Option.some.inj (hs.symm.trans hr)
      simp [ha] at hd
    | conflict r g _ _ hg _ hway => simp [hguards g hg] at hway
    | outOfRange r items hr _ _ hi =>
      obtain rfl := Option.some.inj (hs.symm.trans hr)
      obtain rfl := Option.some.inj (ho.symm.trans hi)
      rw [Position.reported_of_word]
      rfl
    | granted r items i item x v hr _ _ hi ht hitem =>
      obtain rfl := Option.some.inj (hs.symm.trans hr)
      obtain rfl := Option.some.inj (ho.symm.trans hi)
      obtain rfl := Int.ofNat_inj.mp ht
      cases hitem

end World

end Custody

import Custody.Proofs.Confinement
import Custody.Proofs.Orphans
import Custody.Proofs.Ownership

/-! What a reset leaves. A reset is refused just if a guard is on what the owner holds, and
changes nothing then. Otherwise the owner is empty, at once and when all destruction is done, and
what it held is gone: its block went back, all its observers were told, and no handle is valid. -/

namespace Custody

/-! ### What is gone -/

/-- The step that gives the block of a record back tells its observers. -/
theorem Holding.Step.told_of_returned {r : RecordId} {h k : Holding} (hk : Holding.Step r h k)
    (hs : Holding.Sound r h) {new : Record} (hn : k.record = some new) (hb : new.block = none)
    (hold : ∀ rec, h.record = some rec → rec.block = none → rec.IsHushed) : new.slots.IsHushed := by
  cases hk with
  | rest => exact (hold new hn hb).told
  | found hf =>
    obtain rfl := Option.some.inj hn
    have := hf.block
    simp [hb] at this
  | retire =>
    obtain rfl := Option.some.inj hn
    exact SlotTable.isHushed_update
  | @register rec c l t ht =>
    obtain rfl := Option.some.inj hn
    have hq := hold rec rfl (by simpa using hb)
    exact (hq.enrol (Agrees.enrolled hs) ht).told
  | @probe rec c l t ht =>
    obtain rfl := Option.some.inj hn
    have hq := hold rec rfl (by simpa using hb)
    exact ((hq.enrol (Agrees.enrolled hs) ht).deregister t).told
  | @deregister rec c l t =>
    obtain rfl := Option.some.inj hn
    exact ((hold rec rfl (by simpa using hb)).deregister t).told
  | orphan =>
    obtain rfl := Option.some.inj hn
    exact SlotTable.isHushed_update
  | @demolish rec | @collapse rec | @edit rec | @leave rec | @lend rec | @redeem rec =>
    obtain rfl := Option.some.inj hn
    exact (hold rec rfl (by simpa [Record.demolished, Record.left] using hb)).told

namespace World

variable {u v w : World} {i : Nat} {k : Kind} {p : Plan} {r : RecordId} {rec : Record} {b : Block}

/-- Once the block of an allocation went back, all observers were told. -/
theorem Reachable.isHushed_of_returned (h : w.Reachable) (hr : w.records[r]? = some rec)
    (hb : rec.block = none) : rec.IsHushed := by
  obtain ⟨grant, h⟩ := h
  induction h generalizing rec with
  | refl => simp [start] at hr
  | @step v a hv ih =>
    have hs : v.Sound := (sound_start grant).reaches hv
    have hnew := (hs.run a).agrees hr
    refine ⟨?_, (step_run hs a r).told_of_returned (hs.holds r) hr hb fun _ => ih⟩
    have hobj : rec.object = none := by
      have := hnew.housed
      simpa [hb] using this
    simp [Record.isAlive, hobj]

/-- The object of an allocation is gone, its block went back, and all observers were told. -/
structure IsGone (w : World) (r : RecordId) : Prop where
  object : w.object? r = none
  block : w.block? r = none
  told : w.IsHushed r
  invalid : ∀ t, w.isValid (some ⟨r, t⟩) = false

theorem Reachable.isGone (h : w.Reachable) (hr : w.records[r]? = some rec) (hb : rec.block = none) :
    w.IsGone r := by
  have hq := h.isHushed_of_returned hr hb
  have hobj : rec.object = none := by
    have := (h.sound.agrees hr).housed
    simpa [hb] using this
  have hdead : w.isAlive r = false := by simp [isAlive, hr, hq.dead]
  refine ⟨by rw [object?_of_record hr, hobj], by rw [block?_of_record hr, hb], ⟨rec, hr, hq⟩,
    fun t => ?_⟩
  rw [isValid, watched_of_dead (k := ⟨r, t⟩) hdead]
  rfl

/-- What is gone stays gone. -/
theorem Reachable.isGone_later (h : w.Reachable) (hg : w.IsGone r) (hv : w.Reaches v) :
    v.IsGone r := by
  obtain ⟨rec, hr, -⟩ := hg.told
  obtain ⟨new, hnew, hlater⟩ := h.sound.later hv hr
  exact (h.reaches hv).isGone hnew (hlater.released (by rw [← block?_of_record hr, hg.block]))

/-- What an action destroys is gone once nothing is pending. -/
theorem Reachable.isGone_drain (h : w.Reachable) {a : Action} (hr : some r ∈ w.allOwners)
    (ho : (a.run w).object? r = none) : (a.run w).drain.IsGone r := by
  have hs := h.sound
  have hv : w.Reaches (a.run w) := .once a
  have hu : w.Reaches (a.run w).drain := hv.trans (reaches_drain _)
  obtain ⟨rec, -, -, hr, -⟩ := hs.record_of_owner hr
  obtain ⟨mid, hmid, -⟩ := hs.later hv hr
  obtain ⟨new, hnew, -⟩ := hs.later hu hr
  rw [object?_of_record hmid] at ho
  have hblock := (hs.reaches hv).block?_drain hmid ho
  exact (h.reaches hu).isGone hnew (by rw [← block?_of_record hnew]; exact hblock)

/-! ### Places of owners -/

/-- Puts an owner into a place, if there is such a place. -/
def setOwnerAt (w : World) (a : Owner) : OwnerPlace → World
  | .owner i => w.setOwner i a
  | .link g i =>
    match w.writable? g with
    | none => w
    | some guard => (w.element? guard i).elim w fun x => w.setElement guard.record i (x.withLink a)

/-- Whether there is such a place. -/
def HasPlace (w : World) : OwnerPlace → Prop
  | .owner i => i < w.owners.size
  | .link g i =>
    ∃ guard x, w.writable? g = some guard ∧ w.element? guard i = some x ∧ x.hasLink = true

/-- Whether a guard is on what an owner holds. -/
def IsPinned (w : World) (o : OwnerPlace) : Prop := ∃ r, w.ownerAt o = some r ∧ w.IsGuarded r

theorem setOwnerAt_link_cases (w : World) (a : Owner) (g i : Nat) :
    w.setOwnerAt a (.link g i) = w ∨ ∃ guard x, w.writable? g = some guard ∧
      w.element? guard i = some x ∧
      w.setOwnerAt a (.link g i) = w.setElement guard.record i (x.withLink a) := by
  simp only [setOwnerAt]
  cases hg : w.writable? g with
  | none => exact .inl rfl
  | some guard =>
    dsimp only
    cases hx : w.element? guard i with
    | none => exact .inl rfl
    | some x => exact .inr ⟨guard, x, rfl, hx, rfl⟩

theorem book_setOwnerAt (a : Owner) (o : OwnerPlace) : (w.setOwnerAt a o).book = w.book := by
  cases o with
  | owner i => rfl
  | link g i =>
    obtain he | ⟨guard, x, -, -, he⟩ := w.setOwnerAt_link_cases a g i
    · rw [he]
    · rw [he]
      rfl

theorem guards_setOwnerAt (a : Owner) (o : OwnerPlace) : (w.setOwnerAt a o).guards = w.guards :=
  guards_of_book (book_setOwnerAt a o)

theorem size_setOwnerAt (a : Owner) (o : OwnerPlace) :
    (w.setOwnerAt a o).records.size = w.records.size := by
  cases o with
  | owner i => rfl
  | link g i =>
    obtain he | ⟨guard, x, -, -, he⟩ := w.setOwnerAt_link_cases a g i
    · rw [he]
    · rw [he]
      exact Array.size_modify

theorem hands_setOwnerAt_link (a : Owner) (g i : Nat) :
    (w.setOwnerAt a (.link g i)).hands = w.hands := by
  obtain he | ⟨guard, x, -, -, he⟩ := w.setOwnerAt_link_cases a g i
  · rw [he]
  · rw [he]
    rfl

theorem size_owners_setOwnerAt (a : Owner) (o : OwnerPlace) :
    (w.setOwnerAt a o).owners.size = w.owners.size := by
  cases o with
  | owner i => exact Array.size_setIfInBounds
  | link g i => exact congrArg (fun h => h.1.size) (hands_setOwnerAt_link a g i)

theorem soft?_setOwnerAt (a : Owner) (o : OwnerPlace) : (w.setOwnerAt a o).soft? = w.soft? := by
  cases o with
  | owner i => rfl
  | link g i => exact soft?_congr (hands_setOwnerAt_link a g i)

theorem writable?_congr (h : v.guards = w.guards) : v.writable? = w.writable? := by
  funext g
  rw [writable?, writable?, guard?, guard?, h]

theorem element?_congr {guard : Guard} {i : Nat}
    (h : v.object? guard.record = w.object? guard.record) :
    v.element? guard i = w.element? guard i := by
  have heq (u : World) : u.element? guard i =
      if guard.part.spans i then (u.object? guard.record).bind (·[i]?) else none := rfl
  rw [heq, heq, h]

theorem isGuarded_of_writable? {g : Nat} {guard : Guard} (h : w.writable? g = some guard) :
    w.IsGuarded guard.record := ⟨_, mem_guards (guard?_of_writable? h), rfl⟩

/-- The owner in a place depends on its variable, or on what is borrowed. -/
theorem ownerAt_congr {o : OwnerPlace} (howner : ∀ i, o = .owner i → v.owner i = w.owner i)
    (hguards : v.guards = w.guards) (hobjects : ∀ r, w.IsGuarded r → v.object? r = w.object? r) :
    v.ownerAt o = w.ownerAt o := by
  cases o with
  | owner i => exact howner i rfl
  | link g i =>
    rw [ownerAt, ownerAt, writable?_congr hguards]
    cases hg : w.writable? g with
    | none => rfl
    | some guard =>
      rw [Option.bind_some, Option.bind_some,
        element?_congr (hobjects _ (isGuarded_of_writable? hg))]

theorem owner_congr (h : v.hands = w.hands) (i : Nat) : v.owner i = w.owner i :=
  congrArg (·.getD none) (congrFun (owner?_congr h) i)

theorem link_withLink_none (x : Item) : (x.withLink none).link = none := by cases x <;> rfl

theorem ownerAt_setOwnerAt_none (w : World) (o : OwnerPlace) :
    (w.setOwnerAt none o).ownerAt o = none := by
  cases o with
  | owner i => exact owner_setOwner_none i
  | link g i =>
    rw [ownerAt, writable?_congr (guards_setOwnerAt none _)]
    cases hg : w.writable? g with
    | none => rfl
    | some guard =>
      simp only [setOwnerAt, hg, Option.bind_some]
      cases hx : w.element? guard i with
      | none => rw [Option.elim_none, hx, Option.bind_none]
      | some x =>
        rw [Option.elim_some, element?_setElement hx, Option.bind_some, link_withLink_none]

theorem ownerAt_setOwnerAt {o : OwnerPlace} (h : w.HasPlace o) (a : Owner) :
    (w.setOwnerAt a o).ownerAt o = a := by
  cases o with
  | owner i =>
    have hi : i < w.owners.size := h
    simp [ownerAt, setOwnerAt, owner, owner?, setOwner, hi]
  | link g i =>
    obtain ⟨guard, x, hg, hx, hlink⟩ := h
    have hnew : (w.setOwnerAt a (.link g i)) = w.setElement guard.record i (x.withLink a) := by
      simp only [setOwnerAt, hg, hx, Option.elim_some]
    rw [ownerAt, writable?_congr (guards_setOwnerAt a _), hg, Option.bind_some, hnew,
      element?_setElement hx, Option.bind_some]
    cases x <;> first | rfl | cases hlink

theorem object?_setElement (r q : RecordId) (i : Nat) (x : Item) :
    (w.setElement q i x).object? r =
      if q = r then (w.object? r).map (·.set i x) else w.object? r := by
  simp only [object?, setElement, modifyRecord, Array.getElem?_modify]
  split_ifs
  · cases w.records[r]? <;> rfl
  · rfl

/-- Only the element that the guard borrows is another one. -/
theorem object?_setOwnerAt_link {g i : Nat} {guard : Guard} (hg : w.writable? g = some guard)
    (a : Owner) (r : RecordId) : (w.setOwnerAt a (.link g i)).object? r =
      if guard.record = r ∧ guard.part.spans i = true then
        (w.object? r).map (·.modify i (·.withLink a))
      else w.object? r := by
  have helement : w.element? guard i =
      if guard.part.spans i then (w.object? guard.record).bind (·[i]?) else none := rfl
  simp only [setOwnerAt, hg]
  by_cases hs : guard.part.spans i = true
  · simp only [helement, hs, if_true, and_true]
    cases ho : w.object? guard.record with
    | none =>
      split_ifs with hr
      · subst hr
        simp [ho]
      · rfl
    | some items =>
      cases hx : items[i]? with
      | none =>
        simp only [Option.bind_some, hx, Option.elim_none]
        split_ifs with hr
        · subst hr
          rw [ho, Option.map_some, List.modify_eq_self (List.getElem?_eq_none_iff.mp hx)]
        · rfl
      | some x =>
        simp only [Option.bind_some, hx, Option.elim_some, object?_setElement]
        split_ifs with hr
        · subst hr
          rw [ho, Option.map_some, Option.map_some, List.modify_eq_set_getElem?, hx]
          rfl
        · rfl
  · simp [helement, hs]

theorem object?_setOwnerAt_congr {a b : Owner} {o : OwnerPlace} (hg : v.guards = w.guards)
    (ho : v.object? r = (w.setOwnerAt a o).object? r) :
    (v.setOwnerAt b o).object? r = (w.setOwnerAt b o).object? r := by
  cases o with
  | owner i => exact ho
  | link g i =>
    cases hw : w.writable? g with
    | none =>
      have hv : v.writable? g = none := by rw [writable?_congr hg, hw]
      simp only [setOwnerAt, hw, hv] at ho ⊢
      exact ho
    | some guard =>
      have hv : v.writable? g = some guard := by rw [writable?_congr hg, hw]
      have htwice (x : Item) : (x.withLink a).withLink b = x.withLink b := by cases x <;> rfl
      rw [object?_setOwnerAt_link hv, object?_setOwnerAt_link hw, ho, object?_setOwnerAt_link hw]
      split_ifs
      · simp only [Option.map_map, Function.comp_def, List.modify_modify_eq, htwice]
      · rfl

/-- Writing into a place changes no record that nobody borrows. -/
theorem records_setOwnerAt (a : Owner) (o : OwnerPlace) {q : RecordId} (hq : ¬ w.IsGuarded q) :
    (w.setOwnerAt a o).records[q]? = w.records[q]? := by
  cases o with
  | owner i => rfl
  | link g i =>
    obtain he | ⟨guard, x, hg, -, he⟩ := w.setOwnerAt_link_cases a g i
    · rw [he]
    · have hne : guard.record ≠ q := fun h => hq (h ▸ isGuarded_of_writable? hg)
      rw [he, setElement, modifyRecord, Array.getElem?_modify, if_neg hne]

theorem HasPlace.congr {o : OwnerPlace} (h : w.HasPlace o) (hsize : w.owners.size ≤ v.owners.size)
    (hguards : v.guards = w.guards) (hobjects : ∀ r, w.IsGuarded r → v.object? r = w.object? r) :
    v.HasPlace o := by
  cases o with
  | owner i => exact lt_of_lt_of_le h hsize
  | link g i =>
    obtain ⟨guard, x, hg, hx, hlink⟩ := h
    refine ⟨guard, x, by rw [writable?_congr hguards, hg], ?_, hlink⟩
    rw [element?_congr (hobjects _ (isGuarded_of_writable? hg)), hx]

theorem HasPlace.setOwnerAt {o : OwnerPlace} (h : w.HasPlace o) (a : Owner) :
    (w.setOwnerAt a o).HasPlace o := by
  cases o with
  | owner i =>
    have hi : i < w.owners.size := h
    simpa [HasPlace, World.setOwnerAt, setOwner] using hi
  | link g i =>
    obtain ⟨guard, x, hg, hx, hlink⟩ := h
    have hnew : w.setOwnerAt a (.link g i) = w.setElement guard.record i (x.withLink a) := by
      simp only [World.setOwnerAt, hg, hx, Option.elim_some]
    refine ⟨guard, x.withLink a, by rw [writable?_congr (guards_setOwnerAt a _), hg], ?_, ?_⟩
    · rw [hnew, element?_setElement hx]
    · cases x <;> first | rfl | cases hlink

/-! ### An owner that is emptied -/

/-- The world once what the owner in a place holds was destroyed. -/
def emptiedAt (w : World) (o : OwnerPlace) : World := (w.resetAt o).2.drain

/-- The heap on which the next object of an owner is built: that of its present one. -/
def homeOf (w : World) (o : OwnerPlace) : HeapId := (w.heapOf (w.ownerAt o)).getD currentHeap

/-- The owner is empty, the other owners in variables and in borrowed objects are as they were, and
what the owner held is gone. -/
structure IsEmptied (w : World) (o : OwnerPlace) (u : World) : Prop where
  owner : u.ownerAt o = none
  hands : u.hands = (w.setOwnerAt none o).hands
  guards : u.guards = w.guards
  objects : ∀ r, w.IsGuarded r → u.object? r = (w.setOwnerAt none o).object? r
  size : u.records.size = w.records.size
  gone : ∀ r, w.ownerAt o = some r → u.IsGone r

theorem resetAt_eq (w : World) (o : OwnerPlace) : w.resetAt o =
    match w.ownerAt o with
    | none => (.ok (), w)
    | some r =>
      if w.isBorrowed r then (.error .destroyedWhileBorrowed, w)
      else (.ok (), ((w.setOwnerAt none o).schedule [.forget r]).demolish r) := by
  cases o with
  | owner i => rfl
  | link g i =>
    simp only [resetAt, resetLink, ownerAt, setOwnerAt]
    cases w.writable? g with
    | none => rfl
    | some guard =>
      dsimp only [Option.bind_some]
      cases w.element? guard i with
      | none => rfl
      | some x => rfl

/-- A reset is refused just if a guard is in the way, and does nothing then. -/
theorem Sound.resetAt_cases (h : w.Sound) (o : OwnerPlace) :
    (w.IsPinned o ∧ w.resetAt o = (.error .destroyedWhileBorrowed, w)) ∨
      (¬ w.IsPinned o ∧ w.ownerAt o = none ∧ w.resetAt o = (.ok (), w)) ∨
      ∃ r, ¬ w.IsPinned o ∧ w.ownerAt o = some r ∧ w.resetAt o =
        (.ok (), ((w.setOwnerAt none o).schedule [.forget r]).demolish r) := by
  rw [resetAt_eq]
  cases ho : w.ownerAt o with
  | none =>
    refine .inr (.inl ⟨?_, rfl, rfl⟩)
    rintro ⟨r, hr, -⟩
    cases ho.symm.trans hr
  | some r =>
    have hpinned : w.IsPinned o ↔ w.isBorrowed r = true := by
      rw [h.isBorrowed_iff]
      constructor
      · rintro ⟨q, hq, hg⟩
        obtain rfl := Option.some.inj (ho.symm.trans hq)
        exact hg
      · exact fun hg => ⟨r, ho, hg⟩
    cases hb : w.isBorrowed r with
    | true => exact .inl ⟨hpinned.mpr hb, by simp [hb]⟩
    | false => exact .inr (.inr ⟨r, by simp [hpinned, hb], rfl, by simp [hb]⟩)

theorem Sound.resetAt_of_pinned (h : w.Sound) {o : OwnerPlace} (hp : w.IsPinned o) :
    w.resetAt o = (.error .destroyedWhileBorrowed, w) := by
  obtain ⟨-, he⟩ | ⟨hn, -⟩ | ⟨r, hn, -⟩ := h.resetAt_cases o
  · exact he
  · exact absurd hp hn
  · exact absurd hp hn

theorem Sound.resetAt_of_not_pinned (h : w.Sound) {o : OwnerPlace} (hn : ¬ w.IsPinned o) :
    (w.resetAt o).1 = .ok () := by
  obtain ⟨hp, -⟩ | ⟨-, -, he⟩ | ⟨r, -, -, he⟩ := h.resetAt_cases o
  · exact absurd hp hn
  · rw [he]
  · rw [he]

theorem mem_allOwners_of_ownerAt {o : OwnerPlace} (h : w.ownerAt o = some r) :
    some r ∈ w.allOwners := by
  cases o with
  | owner i => exact mem_allOwners_of_owner h
  | link g i =>
    obtain ⟨x, hx, hl⟩ := Option.bind_eq_some_iff.mp h
    obtain ⟨guard, -, hx⟩ := Option.bind_eq_some_iff.mp hx
    obtain ⟨rec, items, hrec, hobj, hn⟩ := element?_eq_some hx
    exact mem_allOwners.mpr (.inr (.inl
      ⟨x, .inl ⟨rec, Array.mem_of_getElem? hrec, items, hobj, List.mem_of_getElem? hn⟩, hl⟩))

theorem object?_setOwnerAt_of_none {o : OwnerPlace} (h : w.ownerAt o = none) (r : RecordId) :
    (w.setOwnerAt none o).object? r = w.object? r := by
  cases o with
  | owner i => rfl
  | link g i =>
    obtain he | ⟨guard, x, hg, hx, he⟩ := w.setOwnerAt_link_cases none g i
    · rw [he]
    · have hl : x.link = none := by simpa [ownerAt, hg, hx] using h
      obtain ⟨rec, items, hrec, hobj, hn⟩ := element?_eq_some hx
      rw [he, object?_setElement, withLink_of_link hl]
      split_ifs with hr
      · subst hr
        obtain ⟨hlt, rfl⟩ := List.getElem?_eq_some_iff.mp hn
        rw [object?_of_record hrec, hobj, Option.map_some, List.set_getElem_self hlt]
      · rfl

theorem hands_setOwnerAt_of_none {o : OwnerPlace} (h : w.ownerAt o = none) :
    (w.setOwnerAt none o).hands = w.hands := by
  cases o with
  | owner i => rw [setOwnerAt, setOwner_of_none h]
  | link g i => exact hands_setOwnerAt_link none g i

/-- The owner is taken out, and the rest is destruction. -/
theorem Sound.resetAt_frame (h : w.Sound) {o : OwnerPlace} (hok : (w.resetAt o).1 = .ok ()) :
    (w.resetAt o).2.hands = (w.setOwnerAt none o).hands ∧ (w.resetAt o).2.book = w.book ∧
      (w.resetAt o).2.records.size = w.records.size ∧
      (∀ q, Stays q (w.setOwnerAt none o) (w.resetAt o).2) ∧
      ∀ r, w.ownerAt o = some r → (w.resetAt o).2.object? r = none := by
  obtain ⟨-, he⟩ | ⟨-, ho, he⟩ | ⟨r, -, ho, he⟩ := h.resetAt_cases o
  · rw [he] at hok
    cases hok
  · rw [he]
    refine ⟨(hands_setOwnerAt_of_none ho).symm, rfl, rfl, fun q => .inl ?_, fun r hr => ?_⟩
    · exact (object?_setOwnerAt_of_none ho q).symm
    · cases ho.symm.trans hr
  · rw [he]
    refine ⟨hands_demolish r, (book_demolish r).trans (book_setOwnerAt none o),
      (confined_demolish r).size.trans (size_setOwnerAt none o),
      fun _ => stays_demolish (w := (w.setOwnerAt none o).schedule [.forget r]) r, fun q hq => ?_⟩
    obtain rfl := Option.some.inj (ho.symm.trans hq)
    exact object?_demolish r

/-- What is borrowed differs in the owner only that is taken out. -/
theorem Sound.objects_of_stays (h : v.Sound) {o : OwnerPlace} (hguards : v.guards = w.guards)
    (hs : ∀ q, Stays q (w.setOwnerAt none o) v) (hr : w.IsGuarded r) :
    v.object? r = (w.setOwnerAt none o).object? r :=
      h.object?_of_stays (hs r) (by rwa [IsGuarded, hguards])

theorem Sound.ownerAt_of_stays (h : v.Sound) {o : OwnerPlace}
    (hhands : v.hands = (w.setOwnerAt none o).hands) (hguards : v.guards = w.guards)
    (hs : ∀ q, Stays q (w.setOwnerAt none o) v) : v.ownerAt o = none := by
  rw [ownerAt_congr (fun i _ => owner_congr hhands i)
    (hguards.trans (guards_setOwnerAt none o).symm) fun r hr => ?_]
  · exact ownerAt_setOwnerAt_none w o
  · rw [IsGuarded, guards_setOwnerAt] at hr
    exact h.objects_of_stays hguards hs hr

/-- The owner is empty before anything is destroyed. -/
theorem Reachable.ownerAt_resetAt_of_ok (h : w.Reachable) {o : OwnerPlace}
    (hok : (w.resetAt o).1 = .ok ()) : (w.resetAt o).2.ownerAt o = none := by
  obtain ⟨hands, hbook, -, hstays, -⟩ := h.sound.resetAt_frame hok
  exact (h.reaches ((Act.resetAt o).lawful w)).sound.ownerAt_of_stays hands
    (guards_of_book hbook) hstays

theorem Reachable.isEmptied (h : w.Reachable) {o : OwnerPlace} (hok : (w.resetAt o).1 = .ok ()) :
    w.IsEmptied o (w.emptiedAt o) := by
  obtain ⟨hands, hbook, hsize, hstays, hgone⟩ := h.sound.resetAt_frame hok
  have hreach : w.Reaches (w.emptiedAt o) := ((Act.resetAt o).lawful w).trans (reaches_drain _)
  have hsound := (h.reaches hreach).sound
  have hands : (w.emptiedAt o).hands = (w.setOwnerAt none o).hands := hands_drain.trans hands
  have hguards : (w.emptiedAt o).guards = w.guards :=
    (guards_of_book book_drain).trans (guards_of_book hbook)
  have hstays (q) : Stays q (w.setOwnerAt none o) (w.emptiedAt o) :=
    (hstays q).trans (stays_drain _ q)
  refine
    { owner := hsound.ownerAt_of_stays hands hguards hstays
      hands := hands
      guards := hguards
      objects := fun r hr => hsound.objects_of_stays hguards hstays hr
      size := size_drain.trans hsize
      gone := fun r hr => ?_ }
  have hgone := h.isGone_drain (a := o.reset) (mem_allOwners_of_ownerAt hr) (by
    rw [run_reset]
    exact hgone r hr)
  rwa [run_reset] at hgone

/-- A guard that borrows through an owner is on what the owner holds. -/
theorem Reachable.isPinned_of_isLent (h : w.Reachable) {i : Nat} (hl : w.isLent (.owner i) = true) :
    w.IsPinned (.owner i) := by
  obtain ⟨g, hg, hs⟩ := isLent_iff.mp hl
  have hr := h.tended g hg
  rw [hs] at hr
  exact ⟨g.2.record, hr, g, hg, rfl⟩


end World

end Custody

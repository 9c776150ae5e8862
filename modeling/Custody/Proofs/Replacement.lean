import Custody.Proofs.Panics.Outcomes
import Custody.Proofs.Registrations
import Custody.Proofs.Values

/-! Resets, on every path, of an owner in a variable or in an element of a borrowed object. A reset
is refused just if a guard is on what the owner holds, and changes nothing then; otherwise it
leaves the owner empty and what it held gone. A reset that gives the owner a new object may fail
before the old one is destroyed or after it. The new value goes in both cases; if it does not
fail, the owner holds it in a new allocation that nobody observes, and no handle that led to the
old object leads to the new one. -/

namespace Custody

namespace Op

variable {w : World} {o : OwnerPlace} {x : Value}

theorem run_replace (o : OwnerPlace) (x : Value) (w : World) :
    (replace o x).run.run w = match (reset .insist o).run.run w with
      | (.error fault, u) => (.error fault, ((scrap x).run u).2)
      | (.ok (), u) => (do
          let j ← inManner .insist (place (w.homeOf o) x)
          act (o.exchange j)).run.run u := by
  rw [replace, run_bind, run_look]
  dsimp only
  rw [run_bind, run_lift]
  rcases (reset .insist o).run.run w with ⟨fault | _, u⟩
  · dsimp only
    rw [run_bind, run_lift]
    rfl
  · rfl

end Op

namespace World

variable {u v w z : World} {o : OwnerPlace} {x : Value} {h : HeapId} {r : RecordId} {rec : Record}

/-! ### A new object in a place -/

/-- The owner in a place holds a new object, built in full, that nobody observes. -/
structure IsRenewed (w : World) (o : OwnerPlace) (x : Value) (v : World) : Prop where
  owner : v.ownerAt o = some w.records.size
  /-- Its identifier is larger than all that were given before. -/
  newer : ∀ r rec, w.records[r]? = some rec → identifier r < identifier w.records.size
  /-- It is on the heap of the old object, and the handles of the value are in it. -/
  record : ∃ rec, v.records[w.records.size]? = some rec ∧ rec.IsNew (w.homeOf o) x.kind (x.items w)
  unobserved : v.observersOf w.records.size = 0
  observers : v.observers (some w.records.size) = 0
  slots : v.observerSlots (some w.records.size) = SlotTable.initial
  /-- What the owner held before is gone. -/
  gone : ∀ r, w.ownerAt o = some r → v.IsGone r
  /-- A new variable was used; it is empty. -/
  hands : v.hands = { (x.leave w).setOwnerAt (some w.records.size) o with
    owners := ((x.leave w).setOwnerAt (some w.records.size) o).owners.push none }.hands
  guards : v.guards = w.guards
  /-- Nothing else in borrowed objects is another. -/
  objects : ∀ r, w.IsGuarded r → v.object? r = (w.setOwnerAt (some w.records.size) o).object? r

/-- An object that only its owner refers to has no observers. -/
theorem Sound.observersOf_of_single (h : w.Sound) (hr : w.records[r]? = some rec)
    (ha : rec.isAlive = true) (hone : rec.handles = 1) : w.observersOf r = 0 := by
  obtain ⟨c, hc⟩ := Multiset.exists_cons_of_mem (h.owns_mem_stakesIn hr ha)
  have hzero : Stake.handles c = 0 := by
    have hcount := (h.agrees hr).counted
    rw [hc, Stake.handles_owns] at hcount
    omega
  rw [observersOf, hc, Stake.registrations_owns, Multiset.eq_zero_iff_forall_notMem]
  intro t ht
  obtain ⟨q, hq⟩ := Stake.mem_registrations.mp ht
  exact (Multiset.countP_eq_zero.mp hzero) _ hq rfl

theorem hands_setOwner (h : v.hands = w.hands) (i : Nat) (a : Owner) :
    (v.setOwner i a).hands = (w.setOwner i a).hands := by
  simp only [World.hands, Prod.mk.injEq] at h
  obtain ⟨ho, hs, hc, hk, hb⟩ := h
  simp only [World.hands, setOwner, ho, hs, hc, hk, hb]

theorem hands_push (h : v.hands = w.hands) (a : Owner) :
    ({ v with owners := v.owners.push a } : World).hands =
      ({ w with owners := w.owners.push a } : World).hands := by
  simp only [World.hands, Prod.mk.injEq] at h
  obtain ⟨ho, hs, hc, hk, hb⟩ := h
  simp only [World.hands, ho, hs, hc, hk, hb]

theorem setIfInBounds_push (a : Array Owner) {i : Nat} (hi : i < a.size) (c d : Owner) :
    (a.push c).setIfInBounds i d = (a.setIfInBounds i d).push c := by
  refine Array.ext_getElem? fun q => ?_
  simp only [Array.getElem?_setIfInBounds, Array.getElem?_push, Array.size_setIfInBounds,
    Array.size_push]
  split_ifs <;> grind

/-- What was put into the last place is taken out and put into another one. -/
theorem setOwner_push_size {a : Array Owner} {i : Nat} (hi : i < a.size) (c : Owner) :
    (((a.setIfInBounds i none).push c).setIfInBounds i c).setIfInBounds a.size none =
      (a.setIfInBounds i c).push none := by
  have hlast := setIfInBounds_push_size (a.setIfInBounds i c) c none
  rw [setIfInBounds_push _ (by simpa using hi), Array.setIfInBounds_setIfInBounds]
  rwa [Array.size_setIfInBounds] at hlast

/-- The variable of the new owner is left empty, as if it had been so from the beginning. -/
theorem hands_leave_push (hx : x.IsAtHand w o) (a : Owner) :
    ((x.leave { w with owners := w.owners.push a }).setOwner w.owners.size none).hands =
      ({ x.leave w with owners := (x.leave w).owners.push none } : World).hands := by
  cases x with
  | plain k p => simp only [World.hands, Value.leave, setOwner, setIfInBounds_push_size]
  | node m n f i q =>
    have howners : (((w.owners.push a).setIfInBounds i none).setIfInBounds w.owners.size none) =
        (w.owners.setIfInBounds i none).push none := by
      have hsize := setIfInBounds_push_size (w.owners.setIfInBounds i none) a none
      rwa [Array.size_setIfInBounds, ← setIfInBounds_push _ hx.next] at hsize
    cases q <;> simp only [World.hands, Value.leave, vacate, setSoft, setOwner, howners]

theorem owner_setOwnerAt_of_ne {i : Nat} (h : o ≠ .owner i) (a : Owner) :
    (w.setOwnerAt a o).owner i = w.owner i := by
  cases o with
  | owner j => exact owner_setOwner_of_ne (fun hj => h (congrArg _ hj)) a
  | link g j => exact owner_congr (hands_setOwnerAt_link a g j) i

theorem ownerAt_setOwner_of_ne {i : Nat} (h : o ≠ .owner i) (a : Owner) :
    (w.setOwner i a).ownerAt o = w.ownerAt o := by
  refine ownerAt_congr (fun j hj => ?_) rfl fun _ _ => rfl
  subst hj
  exact owner_setOwner_of_ne (fun hi => h (congrArg _ hi.symm)) a

theorem IsEmptied.size_owners (hu : w.IsEmptied o u) : u.owners.size = w.owners.size :=
  (congrArg (fun h => h.1.size) hu.hands).trans (size_owners_setOwnerAt none o)

theorem IsEmptied.isAtHand (hu : w.IsEmptied o u) (hx : x.IsAtHand w o) : x.IsAtHand u o :=
  hx.congr hu.size_owners.ge ((soft?_congr hu.hands).trans (soft?_setOwnerAt none o)) hu.guards

theorem Sound.lt_of_isGuarded (h : w.Sound) (hr : w.IsGuarded r) : r < w.records.size := by
  obtain ⟨g, hg, rfl⟩ := hr
  obtain ⟨rec, hrec⟩ := h.record_of_guard hg
  exact (Array.getElem?_eq_some_iff.mp hrec).1

/-- What is borrowed is as it was, but for the owner that was emptied. -/
theorem IsEmptied.objects_of_isBuilt (hu : w.IsEmptied o u) (hw : w.Sound) (hz : u.IsBuilt h x z)
    (hr : (w.setOwnerAt none o).IsGuarded r) : z.object? r = (w.setOwnerAt none o).object? r := by
  rw [IsGuarded, guards_setOwnerAt] at hr
  rw [hz.object?_old (hu.size ▸ hw.lt_of_isGuarded hr), hu.objects r hr]

/-- The owner in a place and the variable of a new object change places. -/
theorem Reachable.run_exchange (hw : w.Reachable) (hp : w.HasPlace o) (hx : x.IsAtHand w o)
    (hn : ¬ w.IsPinned o) (hu : w.IsEmptied o u) (hz : u.IsBuilt h x z) :
    z.HasPlace o ∧ (o.exchange w.owners.size).run z =
      (z.setOwnerAt (some w.records.size) o).setOwner w.owners.size none := by
  have hguards : z.guards = w.guards := hz.guards.trans hu.guards
  have hguards' : z.guards = (w.setOwnerAt none o).guards :=
    hguards.trans (guards_setOwnerAt none o).symm
  have hplace : z.HasPlace o :=
    (hp.setOwnerAt none).congr
      (by rw [size_owners_setOwnerAt, hz.size_owners, hu.size_owners]; omega)
      hguards' fun r hr => hu.objects_of_isBuilt hw.sound hz hr
  have hempty : z.ownerAt o = none := by
    rw [ownerAt_congr (w := w.setOwnerAt none o) ?_ hguards' fun r hr =>
      hu.objects_of_isBuilt hw.sound hz hr, ownerAt_setOwnerAt_none]
    rintro i rfl
    exact (hz.owner_old (hu.isAtHand hx) (hu.size_owners ▸ hp)).trans (owner_congr hu.hands i)
  have hlent (s : Source) : z.isLent s = w.isLent s := by rw [isLent, isLent, hguards]
  have hnew := hz.owner?_new (hu.isAtHand hx)
  rw [hu.size_owners, hu.size] at hnew
  have hrun := World.run_exchange hplace hnew
    ((hlent _).trans (hw.tended.not_isLent_owner (by simp [owner?]))) ?_
  · rw [hempty] at hrun
    exact ⟨hplace, hrun⟩
  · rintro i rfl
    rw [hlent]
    by_contra hl
    exact hn (hw.isPinned_of_isLent (Bool.eq_true_of_not_eq_false hl))

theorem IsEmptied.hands_of_isBuilt (hu : w.IsEmptied o u) (hx : x.IsAtHand w o) (hp : w.HasPlace o)
    (hz : u.IsBuilt h x z) :
    ((z.setOwnerAt (some w.records.size) o).setOwner w.owners.size none).hands =
      { (x.leave w).setOwnerAt (some w.records.size) o with
        owners := ((x.leave w).setOwnerAt (some w.records.size) o).owners.push none }.hands := by
  have hpushed := hz.hands.trans (hands_leave x (hands_push hu.hands (some u.records.size)))
  cases o with
  | link g i =>
    have hsame := hands_setOwnerAt_link (w := w) none g i
    rw [hands_setOwner (hands_setOwnerAt_link _ g i) _ _, hands_setOwner hpushed,
      hands_setOwner (hands_leave x (hands_push hsame _)), hands_leave_push hx]
    exact (hands_push (hands_setOwnerAt_link _ g i) none).symm
  | owner i =>
    have hi : i < w.owners.size := hp
    rw [hu.size] at hpushed
    simp only [setOwnerAt] at hpushed ⊢
    rw [hands_setOwner (hands_setOwner hpushed i _) _ _]
    cases x with
    | plain k p =>
      have howners := setOwner_push_size (a := w.owners) (i := i) hi (some w.records.size)
      simp only [World.hands, Value.leave, setOwner, howners]
    | node m n f j q =>
      have hji : j ≠ i := fun h => hx.apart (congrArg _ h.symm)
      have hj : j < (w.owners.setIfInBounds i none).size := by simpa using hx.next
      have howners :=
        setOwner_push_size (a := w.owners.setIfInBounds j none) (i := i) (by simpa using hi)
        (some w.records.size)
      rw [Array.size_setIfInBounds,
        Array.setIfInBounds_comm none none hji, ← setIfInBounds_push _ hj] at howners
      cases q <;> simp only [World.hands, Value.leave, vacate, setSoft, setOwner, howners]

/-- The owner in a place holds the new object once they changed places. -/
theorem Reachable.isRenewed (hw : w.Reachable) (hp : w.HasPlace o) (hx : x.IsAtHand w o)
    (hn : ¬ w.IsPinned o) (hu : w.IsEmptied o u) (hwu : w.Reaches u) (huz : u.Reaches z)
    (hz : u.IsBuilt (w.homeOf o) x z) : w.IsRenewed o x ((o.exchange w.owners.size).run z) := by
  obtain ⟨hplace, hrun⟩ := hw.run_exchange hp hx hn hu hz
  obtain ⟨rec, hrecords, hnew⟩ := hz.record
  have hguards : z.guards = w.guards := hz.guards.trans hu.guards
  obtain ⟨v, hv⟩ : ∃ v, v = (o.exchange w.owners.size).run z := ⟨_, rfl⟩
  have huv : u.Reaches v := hv ▸ huz.trans (.once _)
  have hfree : ¬ z.IsGuarded w.records.size := fun hg =>
    Nat.lt_irrefl _ (hw.sound.lt_of_isGuarded (by rwa [IsGuarded, hguards] at hg))
  have hitems : x.items u = x.items w :=
    items_congr hx (fun i _ hi => (owner_congr hu.hands i).trans (owner_setOwnerAt_of_ne hi none))
      ((soft?_congr hu.hands).trans (soft?_setOwnerAt none o))
  have hself : v.records[w.records.size]? = some rec := by
    have hrecords' (y : World) : (y.setOwner w.owners.size none).records = y.records := rfl
    rw [hv, hrun, hrecords',
      records_setOwnerAt _ o hfree, hrecords, ← hu.size, Array.getElem?_push_size]
  have hsound := ((hw.reaches hwu).reaches huv).sound
  rw [← hv]
  refine
    { owner := ?_
      newer := fun r rec hr => Nat.succ_lt_succ (Array.getElem?_eq_some_iff.mp hr).1
      record := ⟨rec, hself, hitems ▸ hnew⟩
      unobserved := hsound.observersOf_of_single hself hnew.isAlive hnew.handles
      observers := by rw [observers_some hself, hnew.observers]
      slots := ?_
      gone := fun r hr => (hw.reaches hwu).isGone_later (hu.gone r hr) huv
      hands := by rw [hv, hrun, hu.hands_of_isBuilt hx hp hz]
      guards := ?_
      objects := fun r hr => ?_ }
  · rw [hv, hrun, ownerAt_setOwner_of_ne ?_ none, ownerAt_setOwnerAt hplace]
    rintro rfl
    exact Nat.lt_irrefl _ (show w.owners.size < w.owners.size from hp)
  · simp only [observerSlots, Option.bind_some, hself, Option.map_some, Option.getD_some,
      hnew.slots]
  · rw [hv, hrun]
    exact (guards_setOwnerAt _ o).trans hguards
  · rw [hv, hrun]
    refine object?_setOwnerAt_congr hguards (hu.objects_of_isBuilt hw.sound hz ?_)
    rwa [IsGuarded, guards_setOwnerAt]

/-! ### The outcomes -/

/-- How a reset that may be refused ends. -/
inductive ResetsTo (w : World) (o : OwnerPlace) : Except Fault Unit × World → Prop
  /-- A guard is in the way; nothing changes. -/
  | refused : w.IsPinned o →
    ResetsTo w o (.error (.refused (.access .destroyedWhileBorrowed)), w)
  | emptied : ¬ w.IsPinned o → w.IsEmptied o (w.emptiedAt o) → ResetsTo w o (.ok (), w.emptiedAt o)

/-- What an owner holds is as it was, and every handle on it that is left is valid. -/
structure IsSpared (w : World) (o : OwnerPlace) (v : World) : Prop where
  owner : v.ownerAt o = w.ownerAt o
  object : ∀ r, w.ownerAt o = some r → v.object? r = w.object? r
  valid : ∀ p k, v.soft p = some k → w.ownerAt o = some k.record → v.isValid (some k) = true

/-- How giving an owner a new object ends. -/
inductive ReplacesTo (w : World) (o : OwnerPlace) (x : Value) : Except Fault Unit × World → Prop
  /-- A guard is in the way: only the new value is destroyed, while the panic unwinds. -/
  | refused {u v : World} : w.IsPinned o → u = w.raise (.fatal (.access .destroyedWhileBorrowed)) →
    v = x.destroyedIn u → u.Loses x v → w.IsSpared o v →
    ReplacesTo w o x (.error (.panicked (.fatal (.access .destroyedWhileBorrowed))), v)
  /-- No block is laid out or granted: the old object is gone, the owner is empty, and the new value
  is destroyed before the panic. -/
  | unhoused {e : HeapRefusal} {u v : World} :
    ¬ w.IsPinned o → u = w.emptiedAt o → w.IsEmptied o u →
    u.Refuses (w.homeOf o) x.kind x.kind.element.layout x.plan.count.toNat e →
    v = x.destroyedIn u → u.Loses x v → v.ownerAt o = none →
    ReplacesTo w o x (.error (.panicked (.fatal (.heap e))), v.raise (.fatal (.heap e)))
  | renewed {v : World} : ¬ w.IsPinned o → w.IsRenewed o x v → ReplacesTo w o x (.ok (), v)

/-- What a reset leaves: refused just if a guard is on what the owner holds, and nothing changes
then; otherwise the owner is empty, at once and when all destruction is done, and what it held is
gone. -/
structure IsDefined (w : World) (o : OwnerPlace) : Prop where
  refused_iff : (w.resetAt o).1 = .error .destroyedWhileBorrowed ↔ w.IsPinned o
  unchanged : w.IsPinned o → w.resetAt o = (.error .destroyedWhileBorrowed, w)
  accepted : ¬ w.IsPinned o → (w.resetAt o).1 = .ok ()
  owner : ¬ w.IsPinned o → (w.resetAt o).2.ownerAt o = none
  emptied : ¬ w.IsPinned o → w.IsEmptied o (w.emptiedAt o)
  /-- The program that resets the owner, where no finalizer gives up. -/
  program : (w.emptiedAt o).unwinding = none → w.ResetsTo o ((Op.reset .attempt o).run.run w)

theorem Reachable.resetsTo (h : w.Reachable) (hu : (w.emptiedAt o).unwinding = none) :
    w.ResetsTo o ((Op.reset .attempt o).run.run w) := by
  by_cases hp : w.IsPinned o
  · rw [Op.run_reset_of_error (h.sound.resetAt_of_pinned hp)]
    exact .refused hp
  · have hok := h.sound.resetAt_of_not_pinned hp
    have hnone : (w.resetAt o).2.drain.unwinding = none := hu
    rw [Op.run_reset_of_ok (Prod.ext hok rfl), Op.run_quiesce, hnone]
    exact .emptied hp (h.isEmptied hok)

theorem Reachable.isDefined (h : w.Reachable) (o : OwnerPlace) : w.IsDefined o where
  refused_iff := by
    refine ⟨fun he => ?_, fun hp => congrArg Prod.fst (h.sound.resetAt_of_pinned hp)⟩
    by_contra hn
    rw [h.sound.resetAt_of_not_pinned hn] at he
    cases he
  unchanged := h.sound.resetAt_of_pinned
  accepted := h.sound.resetAt_of_not_pinned
  owner hn := h.ownerAt_resetAt_of_ok (h.sound.resetAt_of_not_pinned hn)
  emptied hn := h.isEmptied (h.sound.resetAt_of_not_pinned hn)
  program := h.resetsTo

/-- A handle on what an owner holds is valid. -/
theorem Reachable.isValid_of_ownerAt (h : w.Reachable) {q : SoftPlace} {k : Watch}
    (hk : w.soft q = some k) (ho : w.ownerAt o = some k.record) : w.isValid (some k) = true := by
  rw [h.sound.isValid_eq (watches_mem_stakes.mpr (.inl ⟨q, soft?_of_soft hk⟩))]
  exact (h.sound.isOwned_iff _).mp (mem_allOwners.mp (mem_allOwners_of_ownerAt ho))

theorem Loses.isSpared (hl : w.Loses x v) (hv : v.Reachable) (hx : x.IsAtHand w o)
    (hp : w.IsPinned o) : w.IsSpared o v where
  owner := hl.ownerAt hx
  object r hr := by
    obtain ⟨q, hq, hg⟩ := hp
    exact hl.objects r (Option.some.inj (hq.symm.trans hr) ▸ hg)
  valid q k hk hr := hv.isValid_of_ownerAt hk ((hl.ownerAt hx).trans hr)

/-- Under a guard the reset is refused, and the new value goes while the panic unwinds. -/
theorem Reachable.replacesTo_of_pinned (h : w.Reachable) (hc : w.IsCalm) (hx : x.IsAtHand w o)
    (hpin : w.IsPinned o) : w.ReplacesTo o x ((Op.replace o x).run.run w) := by
  obtain ⟨u, hraise⟩ : ∃ u, u = w.raise (.fatal (.access .destroyedWhileBorrowed)) := ⟨_, rfl⟩
  have hsame : u = { w with unwinding := some (.fatal (.access .destroyedWhileBorrowed)) } := by
    rw [hraise, raise_eq, hc.unwinding]
    rfl
  have hux : x.IsAtHand u o := by
    rw [hsame]
    exact hx.congr le_rfl rfl rfl
  have hscrap := Op.run_scrap hux (by rw [hsame]; exact hc.pending) (.inr (by rw [hsame]; rfl))
  have hu : u.Reachable := h.reaches (hraise ▸ Reaches.once (.raise _))
  have hv : (x.destroyedIn u).Reachable := hu.reaches (by
    have hlawful := (Op.scrap x).lawful u
    rwa [hscrap] at hlawful)
  have hloses := hu.loses hux
  have hspared : w.IsSpared o (x.destroyedIn u) := by
    have h : u.IsSpared o (x.destroyedIn u) := hloses.isSpared hv hux (hsame ▸ hpin)
    rw [hsame] at h ⊢
    exact ⟨h.owner, h.object, h.valid⟩
  rw [Op.run_replace, Op.run_reset_of_error (h.sound.resetAt_of_pinned hpin)]
  simp only [← hraise, hscrap]
  exact .refused hpin hraise rfl hloses hspared

/-- If nothing is in the way the owner is emptied first, and then gets the new object. -/
theorem Reachable.replacesTo_of_not_pinned (h : w.Reachable) (hp : w.HasPlace o)
    (hx : x.IsAtHand w o) (hu : (w.emptiedAt o).unwinding = none) (ht : x.IsTame (w.emptiedAt o))
    (hpin : ¬ w.IsPinned o) : w.ReplacesTo o x ((Op.replace o x).run.run w) := by
  have hok := h.sound.resetAt_of_not_pinned hpin
  have hempty := h.isEmptied hok
  have hreach : w.Reaches (w.emptiedAt o) := ((Act.resetAt o).lawful w).trans (reaches_drain _)
  have hcalm : (w.emptiedAt o).IsCalm := ⟨pending_drain _, hu⟩
  have hux := hempty.isAtHand hx
  have hreset : (Op.reset .insist o).run.run w = (.ok (), w.emptiedAt o) := by
    have hnone : (w.resetAt o).2.drain.unwinding = none := hu
    rw [Op.run_reset_of_ok (Prod.ext hok rfl), Op.run_quiesce, hnone]
    rfl
  rw [Op.run_replace]
  simp only [hreset, Op.run_bind, Op.run_insist]
  obtain ⟨e, hrefuses, hplace⟩ | ⟨z, hplace, hz⟩ :=
    Op.run_place_cases (h := w.homeOf o) (h.reaches hreach) hcalm hux ht
  · have hloses := (h.reaches hreach).loses hux
    rw [hplace]
    exact .unhoused hpin rfl hempty hrefuses rfl hloses ((hloses.ownerAt hux).trans hempty.owner)
  · have huz : (w.emptiedAt o).Reaches z := Op.reaches_of_run hplace
    have hnew := h.isRenewed hp hx hpin hempty hreach huz hz
    rw [hplace, hempty.size_owners]
    exact .renewed hpin hnew

theorem Reachable.replacesTo (h : w.Reachable) (hc : w.IsCalm) (hp : w.HasPlace o)
    (hx : x.IsAtHand w o) (hu : (w.emptiedAt o).unwinding = none) (ht : x.IsTame (w.emptiedAt o)) :
    w.ReplacesTo o x ((Op.replace o x).run.run w) := by
  by_cases hpin : w.IsPinned o
  · exact h.replacesTo_of_pinned hc hx hpin
  · exact h.replacesTo_of_not_pinned hp hx hu ht hpin

/-- Resets of any owner, in every reachable world, of one in a variable and of one in an object that
a guard borrows. A reset is refused just if a guard is on what the owner holds, and nothing changes
then; one that is accepted leaves the owner empty and what it held gone, also if a finalizer gives
up. Where none gives up, a program that resets an owner ends so, and one that gives an owner a new
object, with handles in it or without, ends with the old one as it was, or gone and not replaced, or
replaced. -/
theorem resets_leave_defined_states (h : w.Reachable) :
    (∀ o, w.IsDefined o) ∧
      ∀ (o : OwnerPlace) (x : Value), w.IsCalm → w.HasPlace o → x.IsAtHand w o →
        (w.emptiedAt o).unwinding = none → x.IsTame (w.emptiedAt o) →
        w.ReplacesTo o x ((Op.replace o x).run.run w) :=
  ⟨h.isDefined, fun _ _ hc hp hx hu ht => h.replacesTo hc hp hx hu ht⟩

/-- Three nodes, the first of them observed, and the second borrowed. -/
def observedAndBorrowed : World :=
  [.construct 0 ⟨.one, .node, .tracked⟩ (.single (.node 7 .plain)), .newSoft, .attach 0 (.soft 0),
    .construct 0 ⟨.one, .node, .tracked⟩ (.single (.node 8 .plain)), .lend (.owner 1) .shared,
    .construct 0 ⟨.one, .node, .tracked⟩ (.single (.node 9 .plain))].foldl Action.run
      (start defaultGrant)

/-- A node that is to own the third one and to observe the first. -/
def heirOfTwo : Value := .node .tracked 10 .plain 2 (.soft 0)

/-- The first owner gets the new node. -/
theorem resets_observedAndBorrowed :
    observedAndBorrowed.resetOwner 1 = (.error .destroyedWhileBorrowed, observedAndBorrowed) ∧
      observedAndBorrowed.IsEmptied (.owner 0) (observedAndBorrowed.emptiedAt (.owner 0)) ∧
      ∃ v, (Op.replace (.owner 0) heirOfTwo).run.run observedAndBorrowed = (.ok (), v) ∧
        observedAndBorrowed.IsRenewed (.owner 0) heirOfTwo v := by
  have h : observedAndBorrowed.Reachable := reachable_foldl _ _
  obtain ⟨hreset, hreplace⟩ := resets_leave_defined_states h
  have hpinned : observedAndBorrowed.IsPinned (.owner 1) :=
    ⟨1, by decide, (0, ⟨1, .shared, .owner 1, .whole⟩), by decide, rfl⟩
  have hfree : ¬ observedAndBorrowed.IsPinned (.owner 0) := fun hp => by
    have hok : (observedAndBorrowed.resetOwner 0).1 = .ok () := by decide
    have hrefused := congrArg Prod.fst ((hreset (.owner 0)).unchanged hp)
    cases hok.symm.trans hrefused
  refine ⟨(hreset (.owner 1)).unchanged hpinned, (hreset (.owner 0)).emptied hfree, ?_⟩
  have hplace : 0 < observedAndBorrowed.owners.size := by decide
  have htame :
      (heirOfTwo.destroyedIn (observedAndBorrowed.emptiedAt (.owner 0))).unwinding = none := by
    decide
  have hends := hreplace (.owner 0) heirOfTwo ⟨by decide, by decide⟩ hplace
    ⟨by decide, by decide, rfl, by decide, by decide, by decide⟩ (by decide) htame
  have hok : ((Op.replace (.owner 0) heirOfTwo).run.run observedAndBorrowed).1.isOk = true := by
    decide +kernel
  generalize (Op.replace (.owner 0) heirOfTwo).run.run observedAndBorrowed = x at hends hok
  cases hends with
  | refused | unhoused => cases hok
  | renewed _ hnew => exact ⟨_, rfl, hnew⟩

end World

end Custody

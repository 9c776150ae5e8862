import Custody.Proofs.Locality.Dooming
import Custody.Proofs.Panics.Destruction

/-! Owners reset one after the other. Resetting any of the variables, in any order, spares all that
is not doomed by what they own. Where they own objects without handles, nothing but those
allocations changes at all, and the observers told are just theirs. -/

namespace Custody

namespace World

variable {D E : RecordId → Prop} {u v w : World} {i : Nat} {is : List Nat} {q r : RecordId}

/-! ### Objects of any kind -/

/-- The world once what a variable holds was destroyed. -/
def emptied (w : World) (i : Nat) : World := w.emptiedAt (.owner i)

/-- What the variables of a list own. -/
def OwnedBy (w : World) (is : List Nat) (r : RecordId) : Prop := ∃ i ∈ is, w.owner i = some r

theorem Sealed.emptied (h : w.Reachable) (hs : w.Sealed D E [] [])
    (hD : ∀ r, w.owner i = some r → D r) :
    (w.emptied i).Sealed D E [] [] ∧ Spared D E w (w.emptied i) := by
  have hp : w.pending = [] := hs.pending
  have hsame (he : (w.resetAt (.owner i)).2 = w) :
      (w.emptied i).Sealed D E [] [] ∧ Spared D E w (w.emptied i) := by
    rw [World.emptied, emptiedAt, he, drain_of_idle hp]
    exact ⟨hs, .refl D E w⟩
  obtain ⟨-, he⟩ | ⟨-, -, he⟩ | ⟨r, hn, hi, -⟩ := h.sound.resetAt_cases (.owner i)
  · exact hsame (by rw [he])
  · exact hsame (by rw [he])
  · have hb : w.isBorrowed r = false := by
      rw [← Bool.not_eq_true, h.sound.isBorrowed_iff]
      exact fun hg => hn ⟨r, hi, hg⟩
    have hs' : w.Sealed D E [] w.pending := hp.symm ▸ hs
    obtain ⟨⟨ts, hstart⟩, hspared, -⟩ := hs'.ends h.sound (hD r hi) (Looses.resetOwner hi hb)
    have hstart : (w.resetOwner i).2.Sealed D E ts [] := hp ▸ hstart
    obtain ⟨v, hworks, hidle, hdrain⟩ := exists_works hstart.pending
    obtain rfl := hdrain rfl
    obtain ⟨⟨us, hend⟩, hrest⟩ := hstart.works (h.sound.run (.resetOwner i)) hworks
    obtain rfl : us = [] := by simpa [hidle] using hend.pending.symm
    exact ⟨hend, hspared.trans hrest⟩

theorem reaches_emptied (w : World) (i : Nat) : w.Reaches (w.emptied i) :=
  (Reaches.once (.resetOwner i)).trans (reaches_drain _)

/-- A reset is refused, or the owner is emptied. -/
theorem Reachable.emptied_cases (h : w.Reachable) (i : Nat) :
    w.emptied i = w.drain ∨ w.IsEmptied (.owner i) (w.emptied i) := by
  obtain ⟨-, he⟩ | ⟨hn, -⟩ | ⟨r, hn, -⟩ := h.sound.resetAt_cases (.owner i)
  · exact .inl (by rw [emptied, emptiedAt, he])
  · exact .inr (h.isEmptied (h.sound.resetAt_of_not_pinned hn))
  · exact .inr (h.isEmptied (h.sound.resetAt_of_not_pinned hn))

theorem Reachable.guards_emptied (h : w.Reachable) (i : Nat) : (w.emptied i).guards = w.guards := by
  obtain he | he := h.emptied_cases i
  · rw [he, guards_of_book book_drain]
  · exact he.guards

theorem Reachable.owner_emptied_of_ne (h : w.Reachable) {j : Nat} (hij : i ≠ j) :
    (w.emptied i).owner j = w.owner j := by
  obtain he | he := h.emptied_cases i
  · rw [he, owner, owner?_congr hands_drain, owner]
  · rw [owner, owner?_congr he.hands]
    exact owner_setOwner_of_ne hij none

/-- A reset puts nothing into a variable. -/
theorem Reachable.owner_emptied (h : w.Reachable) {j : Nat} (hj : (w.emptied i).owner j = some r) :
    w.owner j = some r := by
  by_cases hij : i = j
  · subst hij
    obtain he | he := h.emptied_cases i
    · rwa [he, owner, owner?_congr hands_drain] at hj
    · cases he.owner.symm.trans hj
  · rwa [h.owner_emptied_of_ne hij] at hj

theorem reaches_foldl_emptied (w : World) (is : List Nat) : w.Reaches (is.foldl emptied w) := by
  induction is generalizing w with
  | nil => exact .refl
  | cons i is ih => exact (w.reaches_emptied i).trans (ih (w.emptied i))

/-- What the variables owned is gone, unless a guard was in the way. -/
theorem Reachable.isGone_foldl_emptied (h : w.Reachable) (hr : w.OwnedBy is r)
    (hg : ¬ w.IsGuarded r) : (is.foldl emptied w).IsGone r := by
  obtain ⟨i, hi, hr⟩ := hr
  induction is generalizing w with
  | nil => cases hi
  | cons j is ih =>
    have hreach := h.reaches (w.reaches_emptied j)
    by_cases hij : j = i
    · subst hij
      have hfree : ¬ w.IsPinned (.owner j) := fun ⟨q, hq, hguard⟩ =>
        hg (Option.some.inj (hr.symm.trans hq) ▸ hguard)
      have hempty := h.isEmptied (h.sound.resetAt_of_not_pinned hfree)
      exact hreach.isGone_later (hempty.gone r hr) (reaches_foldl_emptied _ is)
    · refine ih hreach ?_ ((List.mem_cons.mp hi).resolve_left (Ne.symm hij)) ?_
      · rwa [IsGuarded, h.guards_emptied]
      · rwa [h.owner_emptied_of_ne hij]

theorem Sealed.foldl_emptied (h : w.Reachable) (hs : w.Sealed D E [] [])
    (hD : ∀ r, w.OwnedBy is r → D r) : Spared D E w (is.foldl World.emptied w) := by
  induction is generalizing w with
  | nil => exact .refl D E w
  | cons i is ih =>
    obtain ⟨hsealed, hspared⟩ := hs.emptied h (i := i) fun r hr => hD r ⟨i, by simp, hr⟩
    have hreach := h.reaches (w.reaches_emptied i)
    refine hspared.trans (ih hreach hsealed fun r ⟨j, hj, hr⟩ => ?_)
    exact hD r ⟨j, by simp [hj], h.owner_emptied hr⟩

/-! ### Objects without handles -/

/-- A variable owns an object that is not borrowed and whose elements hold no handles and have no
finalizer that gives up. -/
def IsLeaf (w : World) (i : Nat) : Prop :=
  ∃ r items, w.owner i = some r ∧ ¬ w.IsGuarded r ∧ w.object? r = some items ∧
    ∀ x ∈ items, x.IsBare ∧ x.panic? = none

/-- Only record `r` changes, and just its live observers are told. -/
structure Silences (w : World) (r : RecordId) (v : World) : Prop where
  confined : Confined (some r) w v
  heaps : v.heaps.size = w.heaps.size
  told : ∀ h, v.invalidations h = w.invalidations h + w.notice r h

theorem notice_eq_of_record (hr : v.records[q]? = w.records[q]?)
    (hh : v.heaps.size = w.heaps.size) : v.notice q = w.notice q := by
  have hheap : v.heapOf (some q) = w.heapOf (some q) := congrArg (·.map Record.heap) hr
  funext h
  rw [notice, notice, hheap, hh, liveObservers, liveObservers, hr]

theorem size_heaps_returnBlock (r : RecordId) : (w.returnBlock r).heaps.size = w.heaps.size := by
  unfold returnBlock
  split
  · rfl
  · split
    · rfl
    · exact Array.size_modify

/-- The end of a destruction, with one more handle to go. -/
theorem drain_retire (hp : w.pending = []) (ho : w.object? r = none) :
    (w.schedule [.retire r, .forget r]).drain =
      ((w.invalidate r).returnBlock r).modifyRecord r Record.left := by
  set v := (w.invalidate r).returnBlock r with hv
  have hidle : v.pending = [] := ((keeps_invalidate r).trans (keeps_returnBlock r)).pending.trans hp
  have hobj : (v.modifyRecord r Record.left).object? r = none := by
    have hm := object?_modify (w := v) (f := Record.left) (fun _ => rfl) r
    rw [hm, hv, object?_returnBlock, object?_invalidate, ho]
  have hforget : v.forget r = v.modifyRecord r Record.left := by
    have hstay := demolish_of_empty hobj
    show (if _ then (v.modifyRecord r Record.left).demolish r else v.modifyRecord r Record.left) = _
    rw [hstay, ite_self]
  rw [drain_schedule_cons, schedule_eq_below hp, perform, invalidate_below, returnBlock_below, ← hv,
    ← schedule_eq_below hidle, drain_schedule_cons]
  show (v.forget r).drain = _
  rw [hforget]
  exact drain_of_idle hidle

theorem Reachable.silences_emptied (h : w.Reachable) (hp : w.pending = []) (hi : w.owner i = some r)
    (hl : w.IsLeaf i) : w.Silences r (w.emptied i) := by
  obtain ⟨q, items, hq, hfree, ho, hbare⟩ := hl
  obtain rfl := Option.some.inj (hi.symm.trans hq)
  obtain ⟨rec, hr, hobj⟩ := Option.bind_eq_some_iff.mp ho
  set x := (w.setOwner i none).modifyRecord r (empties (Item.image items)) with hx
  have hreset :
      (w.resetAt (.owner i)).2 = x.schedule (items.map .dropItem ++ [.retire r, .forget r]) := by
    obtain ⟨⟨q, hq, hg⟩, -⟩ | ⟨-, hnone, -⟩ | ⟨q, -, hq, he⟩ := h.sound.resetAt_cases (.owner i)
    · obtain rfl := Option.some.inj (hi.symm.trans hq)
      exact absurd hg hfree
    · cases hi.symm.trans hnone
    · obtain rfl := Option.some.inj (hi.symm.trans hq)
      rw [he, setOwnerAt,
        demolish_of_object (w := (w.setOwner i none).schedule [.forget r]) hr hobj, hx]
      simp [schedule, modifyRecord]
  have hxr : x.records[r]? = some (empties (Item.image items) rec) := by
    simp [hx, setOwner, modifyRecord, Array.getElem?_modify, hr]
  set y := x.report (Item.reportsOf items) with hy
  have hempty : y.object? r = none := object?_of_record (w := y) hxr
  have hemptied : w.emptied i = ((y.invalidate r).returnBlock r).modifyRecord r Record.left := by
    rw [emptied, emptiedAt, hreset, drain_schedule_items (by exact hp),
      foldl_destroy_of_bare (fun x hx => (hbare x hx).1) (.inl fun x hx => (hbare x hx).2)
        (by exact hp), ← hy, drain_retire (by exact hp) hempty]
  have hwy : Confined (some r) w y :=
    (confined_modifyRecord r (empties (Item.image items))).congr rfl
  rw [hemptied]
  refine ⟨?_, ?_, fun k => ?_⟩
  · exact ((hwy.trans (confined_invalidate r)).trans (confined_returnBlock r)).trans
      (confined_modifyRecord r Record.left)
  · exact (size_heaps_returnBlock r).trans (stills_invalidate r).size_heaps
  · have hsame : y.notice r k = w.notice r k := by
      have hyr : y.records[r]? = some (empties (Item.image items) rec) := hxr
      simp only [notice, heapOf_some hyr, heapOf_some hr, liveObservers_of_record hyr,
        liveObservers_of_record hr]
      rfl
    show ((y.invalidate r).returnBlock r).invalidations k = _
    rw [invalidations_returnBlock, invalidations_invalidate, hsame]
    rfl

theorem Reachable.isEmptied_of_isLeaf (h : w.Reachable) (hl : w.IsLeaf i) :
    w.IsEmptied (.owner i) (w.emptied i) := by
  obtain ⟨r, items, hi, hfree, -⟩ := hl
  refine h.isEmptied (h.sound.resetAt_of_not_pinned ?_)
  rintro ⟨q, hq, hg⟩
  obtain rfl := Option.some.inj (hi.symm.trans hq)
  exact hfree hg

/-- The objects that other variables own are as they were. -/
theorem Reachable.isLeaf_emptied (h : w.Reachable) (hp : w.pending = []) (hl : w.IsLeaf i) {j : Nat}
    (hj : w.IsLeaf j) (hij : i ≠ j) : (w.emptied i).IsLeaf j ∧ (w.emptied i).owner j = w.owner j ∧
      ∀ r, w.owner j = some r → (w.emptied i).notice r = w.notice r := by
  have hempty := h.isEmptied_of_isLeaf hl
  obtain ⟨r, -, hi, -⟩ := id hl
  obtain ⟨q, items, hq, hfree, ho, hbare⟩ := hj
  have hsilences := h.silences_emptied hp hi hl
  have howner := h.owner_emptied_of_ne hij
  -- what the first variable owned is gone, and what the other owns is there
  have hne : r ≠ q := by
    rintro rfl
    have hmem := mem_allOwners_of_owner (howner.trans hq)
    obtain ⟨rec, items, b, hrec, -, hobj, -⟩ :=
      (h.reaches (w.reaches_emptied i)).sound.record_of_owner hmem
    have hgone := (hempty.gone r hi).object
    rw [object?_of_record hrec, hobj] at hgone
    cases hgone
  have hrecord := hsilences.confined.others q fun hrq => hne (Option.some.inj hrq)
  refine ⟨⟨q, items, howner.trans hq, ?_, ?_, hbare⟩, howner, fun p hp => ?_⟩
  · rwa [IsGuarded, hempty.guards]
  · rw [object?, hrecord]
    exact ho
  · obtain rfl := Option.some.inj (hq.symm.trans hp)
    exact notice_eq_of_record hrecord hsilences.heaps

/-- No other record changes, and each observer of what the variables own is counted. -/
theorem Reachable.foldl_silences (h : w.Reachable) (hp : w.pending = []) (hn : is.Nodup)
    (hl : ∀ i ∈ is, w.IsLeaf i) :
    (∀ q, ¬ w.OwnedBy is q → (is.foldl emptied w).records[q]? = w.records[q]?) ∧
    ∀ k, (is.foldl emptied w).invalidations k =
      w.invalidations k + (is.map fun i => (w.owner i).elim 0 fun r => w.notice r k).sum := by
  induction is generalizing w with
  | nil => exact ⟨fun _ _ => rfl, fun _ => rfl⟩
  | cons i is ih =>
    obtain ⟨hi, hn⟩ := List.nodup_cons.mp hn
    have hleaf : w.IsLeaf i := hl i (by simp)
    obtain ⟨r, -, hr, -⟩ := id hleaf
    have hsilences := h.silences_emptied hp hr hleaf
    have hlater (j : Nat) (hj : j ∈ is) := h.isLeaf_emptied hp hleaf (hl j (by simp [hj]))
      fun hij => hi (hij ▸ hj)
    obtain ⟨hothers, htold⟩ := ih (h.reaches (w.reaches_emptied i)) (pending_drain _) hn
      fun j hj => (hlater j hj).1
    rw [List.foldl_cons]
    refine ⟨fun q hq => ?_, fun k => ?_⟩
    · rw [hothers q fun ⟨j, hj, hq'⟩ => hq ⟨j, by simp [hj], h.owner_emptied hq'⟩]
      exact hsilences.confined.others q fun hrq => hq ⟨i, by simp, hr.trans hrq⟩
    · have hmap :
          (is.map fun j => ((w.emptied i).owner j).elim 0 fun r => (w.emptied i).notice r k) =
          is.map fun j => (w.owner j).elim 0 fun r => w.notice r k := by
        refine List.map_congr_left fun j hj => ?_
        rw [(hlater j hj).2.1]
        cases ho : w.owner j with
        | none => rfl
        | some q => exact congrFun ((hlater j hj).2.2 q ho) k
      rw [htold, hmap, hsilences.told, List.map_cons, List.sum_cons, hr, Option.elim_some,
        Nat.add_assoc]

/-- What resetting some variables leaves, if they own objects without handles. -/
structure Cleared (w : World) (is : List Nat) (v : World) : Prop where
  others : ∀ q, ¬ w.OwnedBy is q → v.records[q]? = w.records[q]?
  gone : ∀ r, w.OwnedBy is r → v.IsGone r
  /-- Just the observers of what the variables owned are not valid any more, -/
  valid : ∀ k : Watch, v.isValid (some k) = true ↔
    w.isValid (some k) = true ∧ ¬ w.OwnedBy is k.record
  /-- and just those that were live are counted as told. -/
  told : ∀ h, v.invalidations h =
    w.invalidations h + (is.map fun i => (w.owner i).elim 0 fun r => w.notice r h).sum

theorem isValid_eq_of_record {k : Watch} (h : v.records[k.record]? = w.records[k.record]?) :
    v.isValid (some k) = w.isValid (some k) := by
  simp only [isValid, watched, h]

theorem Reachable.cleared (h : w.Reachable) (hp : w.pending = []) (hn : is.Nodup)
    (hl : ∀ i ∈ is, w.IsLeaf i) : w.Cleared is (is.foldl emptied w) := by
  obtain ⟨hothers, htold⟩ := h.foldl_silences hp hn hl
  have hgone (r : RecordId) (hr : w.OwnedBy is r) : (is.foldl emptied w).IsGone r := by
    refine h.isGone_foldl_emptied hr ?_
    obtain ⟨i, hi, hr⟩ := hr
    obtain ⟨q, -, hq, hfree, -⟩ := hl i hi
    rwa [Option.some.inj (hr.symm.trans hq)]
  refine ⟨hothers, hgone, fun k => ?_, htold⟩
  by_cases hk : w.OwnedBy is k.record
  · rw [(hgone k.record hk).invalid k.ticket]
    simp [hk]
  · rw [isValid_eq_of_record (hothers k.record hk)]
    simp [hk]

end World

end Custody

import Custody.Heap.Basic
import Custody.Object.Record
import Mathlib.Data.Multiset.Filter
import Mathlib.Data.Multiset.AddSub
import Mathlib.Logic.Function.Basic

/-! The history of observers. Observers register, are told that their owner has gone, and give
up their registration; a roll says which registrations there are and what each was told
last. In every history that a roll allows, a registration is made once, and it was told once,
ended while it was live, made when the owner had gone already, or it is live still: the law
that `accounted` states. -/

namespace Custody

/-- An observer's registration with an allocation of a heap. -/
structure Registration where
  heap : HeapId
  record : RecordId
  ticket : Ticket
  deriving DecidableEq, Repr

/-- What happens to a registration. -/
inductive Notice where
  /-- It is made; the observer is told at once whether the object has its owner. -/
  | made (k : Registration) (s : Standing)
  /-- A live observer is told that the owner has gone. -/
  | told (k : Registration)
  /-- It is given up by an observer that was told so much. -/
  | ended (k : Registration) (s : Standing)
  deriving DecidableEq, Repr

namespace Notice

def subject : Notice → Registration
  | .made k _ | .told k | .ended k _ => k

def made? : Notice → Option Registration
  | .made k _ => some k
  | _ => none

def told? : Notice → Option Registration
  | .told k => some k
  | _ => none

/-- The registration that is made when the owner has gone already. -/
def bornGone? : Notice → Option Registration
  | .made k .gone => some k
  | _ => none

/-- The registration that is given up while it is live. -/
def leftLive? : Notice → Option Registration
  | .ended k .live => some k
  | _ => none

attribute [simp] subject made? told? bornGone? leftLive?

/-- Who is picked out is whom it happens to. -/
theorem picks_none {n : Notice} {k : Registration} (h : n.subject ≠ k) :
    n.made? ≠ some k ∧ n.told? ≠ some k ∧ n.leftLive? ≠ some k ∧ n.bornGone? ≠ some k := by
  cases n with
  | told j => simpa using h
  | made j s | ended j s => cases s <;> simp_all

end Notice

/-- The registrations that a history picks out. -/
def picked (f : Notice → Option Registration) (ns : List Notice) : Multiset Registration :=
  (ns.filterMap f : List Registration)

@[simp] theorem picked_nil (f : Notice → Option Registration) : picked f [] = 0 := rfl

theorem picked_append (f : Notice → Option Registration) (ns ms : List Notice) :
    picked f (ns ++ ms) = picked f ns + picked f ms := by
  simp [picked, List.filterMap_append]

theorem picked_cons (f : Notice → Option Registration) (n : Notice) (ns : List Notice) :
    picked f (n :: ns) = picked f [n] + picked f ns := picked_append f [n] ns

theorem count_picked_singleton (f : Notice → Option Registration) (n : Notice) (k : Registration) :
    (picked f [n]).count k = if f n = some k then 1 else 0 := by
  unfold picked
  cases hf : f n with
  | none => simp [hf]
  | some j =>
    rw [List.filterMap_cons_some hf, List.filterMap_nil, Multiset.coe_singleton,
      Multiset.count_singleton]
    simp only [Option.some.injEq, eq_comm]

/-! ### Rolls -/

/-- What each registration that is there was told last, and which were ever made. -/
structure Roll where
  standing : Registration → Option Standing
  made : Set Registration

namespace Roll

variable {b : Roll} {k : Registration} {ns ms : List Notice}

def blank : Roll := ⟨fun _ => none, ∅⟩

def enter (b : Roll) : Notice → Roll
  | .made k s => ⟨Function.update b.standing k (some s), insert k b.made⟩
  | .told k => { b with standing := Function.update b.standing k (some .gone) }
  | .ended k _ => { b with standing := Function.update b.standing k none }

/-- Whether something can happen next. -/
def Admits (b : Roll) : Notice → Prop
  | .made k _ => k ∉ b.made ∧ b.standing k = none
  | .told k => b.standing k = some .live
  | .ended k s => b.standing k = some s

def enterAll (b : Roll) (ns : List Notice) : Roll := ns.foldl enter b

/-- Whether a history can happen, one thing after the other. -/
def Allows (b : Roll) : List Notice → Prop
  | [] => True
  | n :: ns => b.Admits n ∧ (b.enter n).Allows ns

@[simp] theorem enterAll_nil : b.enterAll [] = b := rfl

@[simp] theorem enterAll_cons (n : Notice) : b.enterAll (n :: ns) = (b.enter n).enterAll ns := rfl

theorem enterAll_append : b.enterAll (ns ++ ms) = (b.enterAll ns).enterAll ms := List.foldl_append

theorem allows_append : b.Allows (ns ++ ms) ↔ b.Allows ns ∧ (b.enterAll ns).Allows ms := by
  induction ns generalizing b with
  | nil => simp [Allows]
  | cons n ns ih => simp [Allows, ih, and_assoc]

/-! ### The law -/

/-- Whether a registration is there and live. -/
def isLive (b : Roll) (k : Registration) : Bool := b.standing k = some .live

theorem standing_enter_of_ne {n : Notice} (h : n.subject ≠ k) :
    (b.enter n).standing k = b.standing k := by
  cases n <;> exact Function.update_of_ne (Ne.symm h) _ _

/-- One thing that happens keeps the account of every registration. -/
theorem Admits.balanced {n : Notice} (h : b.Admits n) (k : Registration) :
    (if n.made? = some k then 1 else 0) + (b.isLive k).toNat =
      (if n.told? = some k then 1 else 0) + (if n.leftLive? = some k then 1 else 0) +
        (if n.bornGone? = some k then 1 else 0) + ((b.enter n).isLive k).toNat := by
  by_cases hk : n.subject = k
  · subst hk
    cases n with
    | made j s =>
      have hfree : b.standing j = none := h.2
      cases s <;> simp [isLive, enter, hfree]
    | told j =>
      have hlive : b.standing j = some .live := h
      simp [isLive, enter, hlive]
    | ended j s =>
      have hstanding : b.standing j = some s := h
      cases s <;> simp [isLive, enter, hstanding]
  · obtain ⟨hm, ht, hl, hg⟩ := Notice.picks_none hk
    rw [if_neg hm, if_neg ht, if_neg hl, if_neg hg, isLive, isLive, standing_enter_of_ne hk]

theorem Allows.balanced (h : b.Allows ns) (k : Registration) :
    (picked Notice.made? ns).count k + (b.isLive k).toNat =
      (picked Notice.told? ns).count k + (picked Notice.leftLive? ns).count k +
        (picked Notice.bornGone? ns).count k + ((b.enterAll ns).isLive k).toNat := by
  induction ns generalizing b with
  | nil => simp
  | cons n ns ih =>
    have hhead := h.1.balanced k
    have htail := ih h.2
    rw [picked_cons Notice.made?, picked_cons Notice.told?, picked_cons Notice.leftLive?,
      picked_cons Notice.bornGone?]
    simp only [Multiset.count_add, count_picked_singleton, enterAll_cons]
    omega

/-- No registration is made twice. -/
theorem Allows.count_made_le (h : b.Allows ns) (k : Registration) :
    (picked Notice.made? ns).count k ≤ 1 ∧ (k ∈ b.made → (picked Notice.made? ns).count k = 0) := by
  induction ns generalizing b with
  | nil => simp
  | cons n ns ih =>
    obtain ⟨hle, hzero⟩ := ih h.2
    rw [picked_cons, Multiset.count_add, count_picked_singleton]
    cases n with
    | made j s =>
      have hnew : j ∉ b.made := h.1.1
      by_cases hj : j = k
      · subst hj
        have hnone := hzero (Set.mem_insert _ _)
        exact ⟨by simp [hnone], fun hk => absurd hk hnew⟩
      · simp only [Notice.made?, Option.some.injEq, hj, if_false, Nat.zero_add]
        exact ⟨hle, fun hk => hzero (Set.mem_insert_of_mem _ hk)⟩
    | told | ended => exact ⟨by simpa using hle, fun hk => by simpa using hzero hk⟩

/-- Telling some live observers, one after the other. -/
theorem allows_told {ks : List Registration} (hn : ks.Nodup)
    (hl : ∀ k ∈ ks, b.standing k = some .live) : b.Allows (ks.map .told) ∧
      b.enterAll (ks.map .told) =
        { b with standing := fun k => if k ∈ ks then some .gone else b.standing k } := by
  induction ks generalizing b with
  | nil => exact ⟨trivial, by simp⟩
  | cons j ks ih =>
    obtain ⟨hj, hn⟩ := List.nodup_cons.mp hn
    have hrest (k) (hk : k ∈ ks) : (b.enter (.told j)).standing k = some .live := by
      have hne : k ≠ j := fun h => hj (h ▸ hk)
      exact (Function.update_of_ne hne _ _).trans (hl k (List.mem_cons_of_mem j hk))
    obtain ⟨hallows, henter⟩ := ih hn hrest
    refine ⟨⟨hl j List.mem_cons_self, hallows⟩, ?_⟩
    rw [List.map_cons, enterAll_cons, henter]
    simp only [enter, Roll.mk.injEq, and_true]
    funext k
    by_cases hk : k = j
    · simp [hk]
    · simp [hk]

end Roll

/-- The account of a history that starts from nothing, on one heap: as many registrations
were made as were told, left while they were live, were made when the owner had gone, and
are live still; and each was made once. -/
theorem Roll.Allows.accounted {ns : List Notice} (h : Roll.blank.Allows ns)
    {live : Multiset Registration}
    (hlive : ∀ k, live.count k = ((Roll.blank.enterAll ns).isLive k).toNat) :
    picked Notice.made? ns = picked Notice.told? ns + picked Notice.leftLive? ns +
        picked Notice.bornGone? ns + live ∧
      (picked Notice.made? ns).Nodup := by
  constructor
  · ext k
    have hk := h.balanced k
    have hnone : Roll.blank.isLive k = false := rfl
    rw [hnone, Bool.toNat_false, Nat.add_zero] at hk
    simp only [Multiset.count_add, hlive, hk]
  · exact Multiset.nodup_iff_count_le_one.mpr fun k => (h.count_made_le k).1

end Custody

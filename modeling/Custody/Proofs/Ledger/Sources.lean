import Custody.Proofs.Ledger.Actions
import Custody.Proofs.Ledger.Places

/-! What the program has in its hands. Destruction leaves all variables alone, and no
action moves or drops a handle that a guard borrows through. So a guard always has its
handle, and an object that is there is always held by some handle. -/

namespace Custody

open Stake

namespace World

variable {u v w : World} {r : RecordId} {rec : Record}

/-- The variables of the program: all of its handles and raw blocks. -/
def hands (w : World) :
    Array Owner × Array Soft × Array Scan × Array Walk × Array (Option Loose) :=
  (w.owners, w.softs, w.scans, w.walks, w.blocks)

theorem owner?_congr (h : v.hands = w.hands) : v.owner? = w.owner? := by
  obtain ⟨ho, -⟩ := Prod.mk.inj h
  funext i
  rw [owner?, owner?, ho]

theorem soft?_congr (h : v.hands = w.hands) : v.soft? = w.soft? := by
  obtain ⟨-, h⟩ := Prod.mk.inj h
  obtain ⟨hs, h⟩ := Prod.mk.inj h
  obtain ⟨hc, h⟩ := Prod.mk.inj h
  obtain ⟨hk, -⟩ := Prod.mk.inj h
  funext p
  cases p <;> simp only [soft?, hs, hc, hk]

theorem scans_of_hands (h : v.hands = w.hands) : v.scans = w.scans := congrArg (fun h => h.2.2.1) h

theorem blocks_of_hands (h : v.hands = w.hands) : v.blocks = w.blocks :=
  congrArg (fun h => h.2.2.2.2) h

/-! ### Destruction -/

theorem hands_raise (p : Panic) : (w.raise p).hands = w.hands := by
  unfold raise
  split_ifs <;> rfl

theorem hands_noteRegistered (r : RecordId) (t : Option Ticket) :
    (w.noteRegistered r t).hands = w.hands := by
  unfold noteRegistered
  split
  · rfl
  · split_ifs <;> rfl

theorem hands_invalidate (r : RecordId) : (w.invalidate r).hands = w.hands := by
  unfold invalidate
  split <;> rfl

theorem hands_returnBlock (r : RecordId) : (w.returnBlock r).hands = w.hands := by
  unfold returnBlock
  split
  · rfl
  · split <;> rfl

theorem hands_demolish (r : RecordId) : (w.demolish r).hands = w.hands := by
  unfold demolish
  split
  · rfl
  · split <;> rfl

theorem hands_orphan (r : RecordId) : (w.orphan r).hands = w.hands := by
  unfold orphan
  split_ifs
  · rfl
  · exact hands_invalidate r

theorem hands_copyBriefly (s : Soft) : (w.copyBriefly s).2.hands = w.hands := by
  unfold copyBriefly
  split
  · rfl
  · split
    · rfl
    · split
      · rfl
      · exact hands_noteRegistered _ _

theorem hands_finalize (value : Int64) (f : Finalizer) (prev : Soft) :
    (w.finalize value f prev).hands = w.hands := by
  have hcopy := hands_copyBriefly (w := { w with log := .dropped value :: w.log }) prev
  unfold finalize
  split_ifs
  · exact (hands_raise _).trans hcopy
  · exact hcopy
  · exact hands_raise _
  · rfl

theorem hands_perform (t : Task) : (w.perform t).hands = w.hands := by
  cases t with
  | dropOwner o =>
    cases o with
    | none => rfl
    | some r =>
      simp only [perform, dropOwner]
      split_ifs
      · exact (hands_raise _).trans (hands_orphan r)
      · exact hands_demolish r
  | dropSoft s => cases s <;> rfl
  | dropItem i =>
    cases i with
    | node value f next prev => exact hands_finalize value f prev
    | unit | int | byte | bucket | entry => rfl
  | retire r => exact (hands_returnBlock r).trans (hands_invalidate r)
  | forget r =>
    simp only [perform, forget]
    split_ifs
    · exact hands_demolish r
    · rfl
  | abandon => rfl

theorem hands_tick : w.tick.hands = w.hands := by
  unfold tick
  split
  · rfl
  · exact hands_perform _

theorem hands_watch (r : RecordId) : (w.watch r).2.hands = w.hands := by
  unfold watch
  split
  · rfl
  · split_ifs
    · rfl
    · split
      · rfl
      · exact hands_noteRegistered _ _

/-! ### Guards and their handles -/

/-- The record that the handle in a variable refers to, whether it may be used or not. -/
def referent (w : World) : Source → Option RecordId
  | .owner i => w.owner i
  | .soft p => (w.soft p).map Watch.record

/-- Every guard has the handle that it borrows through. -/
def Tended (w : World) : Prop := ∀ g ∈ w.guards, w.referent g.2.source = some g.2.record

theorem referent_congr (h : v.hands = w.hands) : v.referent = w.referent := by
  funext s
  cases s <;> simp only [referent, owner, soft, owner?_congr h, soft?_congr h]

theorem isLent_iff {s : Source} : w.isLent s = true ↔ ∃ g ∈ w.guards, g.2.source = s := by
  simp [isLent]

/-- What no guard borrows through does not matter. -/
theorem Tended.of_lent (h : w.Tended) (hg : v.guards = w.guards)
    (hs : ∀ s, w.isLent s = true → v.referent s = w.referent s) : v.Tended := by
  intro g hmem
  rw [hg] at hmem
  rw [hs _ (isLent_iff.mpr ⟨g, hmem, rfl⟩)]
  exact h g hmem

theorem Tended.of_hands (h : w.Tended) (hg : v.book = w.book) (hv : v.hands = w.hands) : v.Tended :=
  h.of_lent (guards_of_book hg) fun s _ => by rw [referent_congr hv]

/-- The handle of a guard is one of the handles of its record. -/
theorem Tended.handle (h : w.Tended) {g : Nat × Guard} (hg : g ∈ w.guards) :
    .owns g.2.record ∈ w.stakes ∨ ∃ k, .watches k ∈ w.stakes ∧ k.record = g.2.record := by
  have hr := h g hg
  cases hs : g.2.source with
  | owner i =>
    rw [hs, referent, owner] at hr
    cases ho : w.owner? i with
    | none => simp [ho] at hr
    | some o =>
      obtain rfl : o = some g.2.record := by simpa [ho] using hr
      exact .inl (owns_mem_stakes.mpr (.inl (Array.mem_of_getElem? ho)))
  | soft p =>
    rw [hs, referent, soft] at hr
    cases hp : w.soft? p with
    | none => simp [hp] at hr
    | some s =>
      rw [hp] at hr
      obtain ⟨k, rfl, hk⟩ := Option.map_eq_some_iff.mp hr
      exact .inr ⟨k, watches_mem_stakes.mpr (.inl ⟨p, hp⟩), hk⟩

/-! ### Variables that change -/

theorem owner_setOwner_of_ne {i j : Nat} (h : i ≠ j) (o : Owner) :
    (w.setOwner i o).owner j = w.owner j := by
  simp [owner, owner?, setOwner, h]

theorem soft_setSoft_of_ne {p q : SoftPlace} (h : p ≠ q) (s : Soft) :
    (w.setSoft p s).soft q = w.soft q := by
  rw [soft, soft?_setSoft, if_neg h, soft]

theorem referent_setOwner {i : Nat} {s : Source} (h : s ≠ .owner i) (o : Owner) :
    (w.setOwner i o).referent s = w.referent s := by
  cases s with
  | owner j => exact owner_setOwner_of_ne (by rintro rfl; exact h rfl) o
  | soft p =>
    have hp : (w.setOwner i o).soft? p = w.soft? p := by cases p <;> rfl
    simp only [referent, soft, hp]

theorem referent_setSoft {p : SoftPlace} {s : Source} (h : s ≠ .soft p) (x : Soft) :
    (w.setSoft p x).referent s = w.referent s := by
  cases s with
  | owner j =>
    have hj : (w.setSoft p x).owner? j = w.owner? j := by cases p <;> rfl
    simp only [referent, owner, hj]
  | soft q => rw [referent, soft_setSoft_of_ne (by rintro rfl; exact h rfl), referent]

theorem soft?_vacate (p q : SoftPlace) : (w.vacate p).soft? q = (w.setSoft p none).soft? q := by
  cases p <;> cases q <;> simp only [vacate, soft?, setSoft, Array.getElem?_modify] <;> grind

theorem referent_vacate {p : SoftPlace} {s : Source} (h : s ≠ .soft p) :
    (w.vacate p).referent s = w.referent s := by
  have hv : (w.vacate p).referent s = (w.setSoft p none).referent s := by
    cases s with
    | owner j => cases p <;> rfl
    | soft q => simp only [referent, soft, soft?_vacate]
  exact hv.trans (referent_setSoft h none)

theorem ne_of_not_isLent {s t : Source} (ht : w.isLent t = false) (hs : w.isLent s = true) :
    s ≠ t := by
  rintro rfl
  simp [ht] at hs

theorem Tended.ne_none (h : w.Tended) {s : Source} (hs : w.isLent s = true) :
    w.referent s ≠ none := by
  obtain ⟨g, hg, rfl⟩ := isLent_iff.mp hs
  simp [h g hg]

/-- Variables that are added do not matter. -/
theorem referent_push {s : Source} (h : w.referent s ≠ none)
    (ho : ∀ i o, w.owner? i = some o → v.owner? i = some o)
    (hp : ∀ p x, w.soft? p = some x → v.soft? p = some x) : v.referent s = w.referent s := by
  cases s with
  | owner i =>
    cases hi : w.owner? i with
    | none => simp [referent, owner, hi] at h
    | some o => simp [referent, owner, hi, ho i o hi]
  | soft p =>
    cases hx : w.soft? p with
    | none => simp [referent, soft, hx] at h
    | some x => simp [referent, soft, hx, hp p x hx]

theorem getElem?_push_of_some {α : Type} {a : Array α} {i : Nat} {x y : α} (h : a[i]? = some x) :
    (a.push y)[i]? = some x := by
  obtain ⟨hi, rfl⟩ := Array.getElem?_eq_some_iff.mp h
  rw [Array.getElem?_push, if_neg (by omega), Array.getElem?_eq_getElem hi]

theorem soft?_pushSoft {p : SoftPlace} {x : Soft} (h : w.soft? p = some x) (s : Soft) :
    { w with softs := w.softs.push s }.soft? p = some x := by
  cases p with
  | soft i => exact getElem?_push_of_some h
  | _ => exact h

theorem soft?_pushScan {p : SoftPlace} {x : Soft} (h : w.soft? p = some x) (c : Scan) :
    { w with scans := w.scans.push c }.soft? p = some x := by
  cases p with
  | scan i =>
    obtain ⟨d, hd, rfl⟩ := Option.map_eq_some_iff.mp h
    exact Option.map_eq_some_iff.mpr ⟨d, getElem?_push_of_some hd, rfl⟩
  | _ => exact h

theorem soft?_pushWalk {p : SoftPlace} {x : Soft} (h : w.soft? p = some x) (k : Walk) :
    { w with walks := w.walks.push k }.soft? p = some x := by
  cases p with
  | node i | buckets i =>
    obtain ⟨d, hd, rfl⟩ := Option.map_eq_some_iff.mp h
    exact Option.map_eq_some_iff.mpr ⟨d, getElem?_push_of_some hd, rfl⟩
  | _ => exact h

theorem Tended.push (h : w.Tended) (hg : v.guards = w.guards)
    (ho : ∀ i o, w.owner? i = some o → v.owner? i = some o)
    (hp : ∀ p x, w.soft? p = some x → v.soft? p = some x) : v.Tended :=
  h.of_lent hg fun _ hs => referent_push (h.ne_none hs) ho hp

/-! ### Every action -/

theorem tended_construct (h : w.Tended) (heap : HeapId) (k : Kind) (p : Plan) :
    (w.construct heap k p).2.Tended := by
  refine h.push (guards_of_book (book_construct heap k p)) ?_ ?_
  · intro i o hi
    rw [construct_eq]
    split
    · exact hi
    · split
      · exact hi
      · rename_i b v hv
        obtain ⟨arena, -, rfl⟩ := allocate_eq_ok hv
        split
        · rw [owner?_congr (hands_raise _)]
          exact getElem?_push_of_some hi
        · exact getElem?_push_of_some hi
  · intro q x hq
    rw [construct_eq]
    split
    · exact hq
    · split
      · exact hq
      · rename_i b v hv
        obtain ⟨arena, -, rfl⟩ := allocate_eq_ok hv
        split
        · rw [soft?_congr (hands_raise _)]
          cases q <;> exact hq
        · cases q <;> exact hq

theorem tended_setOwner (h : w.Tended) {i : Nat} {o : Owner} (hi : w.isLent (.owner i) = false) :
    (w.setOwner i o).Tended :=
  h.of_lent rfl fun _ hs => referent_setOwner (ne_of_not_isLent hi hs) o

theorem tended_setSoft (h : w.Tended) {p : SoftPlace} {x : Soft} (hp : w.isLent (.soft p) = false) :
    (w.setSoft p x).Tended :=
  h.of_lent (by cases p <;> rfl) fun _ hs => referent_setSoft (ne_of_not_isLent hp hs) x

theorem isLent_setSoft (p : SoftPlace) (x : Soft) (s : Source) :
    (w.setSoft p x).isLent s = w.isLent s := by
  cases p <;> rfl

theorem tended_swapOwners (h : w.Tended) (i j : Nat) : (w.swapOwners i j).Tended := by
  unfold swapOwners
  split
  · split_ifs with hl
    · exact h
    · obtain ⟨hi, hj⟩ : w.isLent (.owner i) = false ∧ w.isLent (.owner j) = false := by
        simpa using hl
      exact tended_setOwner (tended_setOwner h hi) hj
  · exact h

theorem tended_swapSofts (h : w.Tended) (p q : SoftPlace) : (w.swapSofts p q).Tended := by
  unfold swapSofts
  split
  · split_ifs with hl
    · simp only [Bool.and_eq_true, Bool.not_eq_true'] at hl
      apply tended_setSoft (tended_setSoft h hl.1.2)
      rw [isLent_setSoft]
      exact hl.2
    · exact h
  · exact h

theorem tended_discardOwner (h : w.Tended) (i : Nat) : (w.discardOwner i).Tended := by
  unfold discardOwner
  split_ifs with hl
  · exact h
  · exact tended_setOwner h (by simpa using hl)

theorem tended_discardSoft (h : w.Tended) (p : SoftPlace) : (w.discardSoft p).Tended := by
  unfold discardSoft
  split_ifs with hl
  · exact h
  · refine h.of_lent (by cases p <;> rfl) fun s hs => ?_
    exact referent_vacate (ne_of_not_isLent (by simpa using hl) hs)

theorem tended_scrapNode (h : w.Tended) (x : Int64) (f : Finalizer) (i : Nat) (p : SoftPlace) :
    (w.scrapNode x f i p).Tended := by
  unfold scrapNode
  split_ifs with hl
  · simp only [Bool.and_eq_true, Bool.not_eq_true'] at hl
    have howner := tended_setOwner (o := none) h hl.1.2
    refine howner.of_lent (by cases p <;> rfl) fun s hs => ?_
    exact referent_vacate (ne_of_not_isLent (w := w) hl.2 hs)
  · exact h

theorem tended_exchangeLink (h : w.Tended) (g i j : Nat) : (w.exchangeLink g i j).Tended := by
  unfold exchangeLink
  split
  · split
    · split_ifs with hl
      · have hfree : w.isLent (.owner j) = false := by simpa using (Bool.and_eq_true_iff.mp hl).2
        exact tended_setOwner (w := w.setElement _ _ _) h hfree
      · exact h
    · exact h
  · exact h

theorem tended_exchangeBack (h : w.Tended) (g i : Nat) (p : SoftPlace) :
    (w.exchangeBack g i p).Tended := by
  unfold exchangeBack
  split
  · split
    · split_ifs with hl
      · have hfree : w.isLent (.soft p) = false := by simpa using (Bool.and_eq_true_iff.mp hl).2
        exact tended_setSoft (w := w.setElement _ _ _) h hfree
      · exact h
    · exact h
  · exact h

theorem tended_attach (h : w.Tended) (r : RecordId) (p : SoftPlace) : (w.attach r p).2.Tended := by
  unfold attach
  split_ifs with hp
  · obtain ⟨-, hempty⟩ : p.isLoose = true ∧ w.soft? p = some none := by simpa using hp
    have hfree : w.isLent (.soft p) = false := by
      by_contra hlent
      exact h.ne_none (by simpa using hlent) (by simp [referent, soft, hempty])
    have hw : (w.watch r).2.Tended := h.of_hands (keeps_watch r).book (hands_watch r)
    have hlent : (w.watch r).2.isLent (.soft p) = false := by
      rw [isLent, guards_of_book (keeps_watch r).book]
      exact hfree
    split
    · rename_i e v hv
      rwa [hv] at hw
    · rename_i s v hv
      rw [hv] at hw hlent
      exact tended_setSoft hw hlent
  · exact h

theorem tended_lend (h : w.Tended) (s : Source) (a : Access) : (w.lend s a).2.Tended := by
  unfold lend
  split
  · exact h
  · rename_i r hreach
    split
    · exact h
    · split
      · exact h
      · exact h
      · have href : w.referent s = some r := by
          cases s with
          | owner i =>
            simp only [reach, held] at hreach
            cases ho : w.owner i with
            | none => simp [ho] at hreach
            | some q => simpa [referent, ho] using hreach
          | soft p =>
            simp only [reach] at hreach
            cases hs : w.soft p with
            | none => simp [hs, watched] at hreach
            | some k =>
              rw [hs, watched] at hreach
              split at hreach
              · cases hreach
              · split_ifs at hreach
                simpa [referent, hs] using hreach
        intro g hg
        obtain rfl | hg := List.mem_cons.mp hg
        · exact href
        · exact h g hg

theorem tended_duplicate (h : w.Tended) (g : Nat) : (w.duplicate g).2.Tended := by
  unfold duplicate
  split
  · rename_i r source part hguard
    split
    · intro k hk
      obtain rfl | hk := List.mem_cons.mp hk
      · have hsource := h _ (mem_guards hguard)
        exact hsource
      · exact h k hk
    · exact h
  · exact h

theorem soft?_moveScan (i : Nat) (m : Position.Move) (p : SoftPlace) :
    (w.moveScan i m).soft? p = w.soft? p := by
  cases p with
  | scan j =>
    simp only [soft?, moveScan, Array.getElem?_modify]
    split_ifs
    · cases w.scans[j]? <;> rfl
    · rfl
  | _ => rfl

theorem soft?_moveWalk (i : Nat) (m : Position.Move) (p : SoftPlace) :
    (w.moveWalk i m).soft? p = w.soft? p := by
  cases p with
  | node j | buckets j =>
    simp only [soft?, moveWalk, Array.getElem?_modify]
    split_ifs
    · cases w.walks[j]? <;> rfl
    · rfl
  | _ => rfl

theorem Tended.of_soft? (h : w.Tended) (hg : v.guards = w.guards) (ho : v.owner? = w.owner?)
    (hp : ∀ p, v.soft? p = w.soft? p) : v.Tended :=
  h.push hg (fun i o hi => by rw [ho, hi]) fun p x hx => by rw [hp, hx]

theorem tended_narrow (h : w.Tended) (g i : Nat) : (w.narrow g i).Tended := by
  intro k hk
  obtain ⟨k, hmem, rfl⟩ := List.mem_map.mp hk
  have hk := h k hmem
  split_ifs
  · exact hk
  · exact hk

theorem tended_endBorrow (h : w.Tended) (g : Nat) : (w.endBorrow g).Tended := by
  unfold endBorrow
  split
  · exact h
  · exact fun k hk => h k (List.mem_filter.mp hk).1

theorem tended_resetOwner (h : w.Tended) (hs : w.Sound) (i : Nat) : (w.resetOwner i).2.Tended := by
  unfold resetOwner
  split
  · exact h
  · rename_i r hr
    split_ifs with hb
    · exact h
    · -- a guard that borrows through this owner would be on its object
      have hfree : w.isLent (.owner i) = false := by
        by_contra hlent
        obtain ⟨g, hg, hsource⟩ := isLent_iff.mp (by simpa using hlent)
        have href := h g hg
        rw [hsource, referent, hr] at href
        exact hb ((hs.isBorrowed_iff r).mpr ⟨g, hg, (Option.some.inj href).symm⟩)
      exact (tended_setOwner h hfree).of_hands (book_demolish r) (hands_demolish r)

theorem tended_resetLink (h : w.Tended) (g i : Nat) : (w.resetLink g i).2.Tended := by
  unfold resetLink
  split
  · exact h
  · split
    · exact h
    · split
      · exact h
      · rename_i r _
        split_ifs
        · exact h
        · exact h.of_hands (book_demolish r) (hands_demolish r)

theorem Tended.run_of_heaps (h : w.Tended) {a : Action} (ha : a.concern = .heaps) :
    (a.run w).Tended := by
  cases a with
  | allot heap l n =>
    simp only [Action.run, allot]
    split
    · exact h
    · rename_i b v hv
      obtain ⟨arena, -, rfl⟩ := allocate_eq_ok hv
      exact h
  | openHeap | giveBack | setDetecting =>
    simp only [Action.run, openHeap, giveBack, setDetecting]
    split <;> exact h
  | fill | reclaim => exact h
  | _ => cases ha

theorem Tended.run_of_observers (h : w.Tended) {a : Action} (ha : a.concern = .observers) :
    (a.run w).Tended := by
  have hwatch (r : RecordId) : (w.watch r).2.Tended :=
    h.of_hands (keeps_watch r).book (hands_watch r)
  cases a with
  | newScan r i =>
    exact newScan_frame Tended r i h hwatch fun v c hv =>
      hv.push rfl (fun i o hi => hi) fun p x hp => soft?_pushScan hp c
  | newWalk r i =>
    exact newWalk_frame Tended r i h hwatch fun v k hv =>
      hv.push rfl (fun i o hi => hi) fun p x hp => soft?_pushWalk hp k
  | attach r p => exact tended_attach h r p
  | _ => cases ha

theorem Tended.run_of_variables (h : w.Tended) {a : Action} (ha : a.concern = .variables) :
    (a.run w).Tended := by
  cases a with
  | newOwner =>
    exact h.push rfl (fun i o hi => getElem?_push_of_some hi) fun p x hp => by cases p <;> exact hp
  | newSoft => exact h.push rfl (fun i o hi => hi) fun p x hp => soft?_pushSoft hp none
  | moveScan i m => exact h.of_soft? rfl rfl (soft?_moveScan i m)
  | moveWalk i m => exact h.of_soft? rfl rfl (soft?_moveWalk i m)
  | swapOwners i j => exact tended_swapOwners h i j
  | swapSofts p q => exact tended_swapSofts h p q
  | scrapNode x f i p => exact tended_scrapNode h x f i p
  | discardOwner i => exact tended_discardOwner h i
  | discardSoft p => exact tended_discardSoft h p
  | narrow g i => exact tended_narrow h g i
  | raise p => exact h.of_hands (keeps_raise p).book (hands_raise p)
  | recover =>
    simp only [Action.run, recover]
    split_ifs
    · exact h
    · exact h
  | scrap | clearLog => exact h
  | _ => cases ha

theorem Tended.run (h : w.Tended) (hs : w.Sound) (a : Action) : (a.run w).Tended := by
  cases a with
  | construct heap k p => exact tended_construct h heap k p
  | resetOwner i => exact tended_resetOwner h hs i
  | resetLink g i => exact tended_resetLink h g i
  | lend s a => exact tended_lend h s a
  | duplicate g => exact tended_duplicate h g
  | endBorrow g => exact tended_endBorrow h g
  | put g x =>
    simp only [Action.run, put]
    split
    · exact h
    · exact h
  | exchangeLink g i j => exact tended_exchangeLink h g i j
  | exchangeBack g i p => exact tended_exchangeBack h g i p
  | tick => exact h.of_hands book_tick hands_tick
  | newScan | newWalk | attach => exact h.run_of_observers rfl
  | openHeap | allot | fill | giveBack | reclaim | setDetecting => exact h.run_of_heaps rfl
  | _ => exact h.run_of_variables rfl

theorem Reachable.tended (h : w.Reachable) : w.Tended := by
  obtain ⟨grant, h⟩ := h
  induction h with
  | refl => exact fun g hg => absurd hg List.not_mem_nil
  | step a hv ih => exact ih.run (Reachable.sound ⟨grant, hv⟩) a

/-! ### Objects and their handles -/

/-- The object that a guard is on is held by a handle, that of the guard. -/
theorem Tended.handles_pos (h : w.Tended) (hs : w.Sound) (hr : w.records[r]? = some rec)
    (hl : w.loans r ≠ 0) : 0 < rec.handles := by
  obtain ⟨a, ha⟩ := Multiset.exists_mem_of_ne_zero hl
  obtain ⟨g, hg, rfl, -⟩ := mem_loans.mp ha
  have hstake : ∃ s ∈ w.stakesIn g.2.record, s.isHandle = true := by
    obtain hown | ⟨k, hk, hrec⟩ := h.handle hg
    · exact ⟨_, mem_stakesIn.mpr ⟨hown, rfl⟩, rfl⟩
    · exact ⟨_, mem_stakesIn.mpr ⟨hk, hrec⟩, rfl⟩
  rw [(hs.agrees hr).counted]
  exact Multiset.countP_pos.mpr hstake

/-- An object that is there is held by some handle. -/
theorem Reachable.handles_pos (h : w.Reachable) (hr : w.records[r]? = some rec)
    (ho : rec.object.isSome = true) : 0 < rec.handles := by
  obtain ⟨grant, h⟩ := h
  induction h generalizing rec with
  | refl => simp [start] at hr
  | @step v a hv ih =>
    have hv' : v.Reachable := ⟨grant, hv⟩
    have hrun := hv'.reaches (.once a)
    obtain hpos | hl := (step_run hv'.sound a r).held (hv'.sound.holds r) (fun old => ih) hr ho
    · exact hpos
    · exact hrun.tended.handles_pos hrun.sound hr hl

end World

end Custody

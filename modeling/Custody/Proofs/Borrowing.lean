import Custody.Proofs.Destruction
import Custody.Proofs.Ledger.Sources
import Custody.Proofs.Lending
import Custody.Proofs.Validity

/-! Many readers or one writer. The borrow of a record is one counter, and the guards in
force are a list; in every reachable world the counter is the number of the readers in the
list, or tells of the one writer in it. What a borrow or a destruction is answered follows
from the list alone. -/

namespace Custody

/-- The borrow as one signed counter: the number of readers, or -1 under a writer. -/
def Borrow.flag : Borrow → Int
  | .readers n => n
  | .writer => -1

/-- What the release of a borrow relies on: a reader is counted, or the writer is. -/
def Borrow.Bears (b : Borrow) : Access → Prop
  | .shared => 0 < b.flag
  | .exclusive => b.flag = -1

/-- A borrow is that of one writer, or of as many readers as there are guards. -/
theorem Borrow.Covers.cases {b : Borrow} {l : Multiset Access} (h : b.Covers l) :
    (b = .writer ∧ l.count .exclusive = 1 ∧ l.count .shared = 0) ∨
      (b = .readers (l.count .shared) ∧ l.count .exclusive = 0) := by
  cases b with
  | writer =>
    obtain rfl : l = _ := h
    exact .inl ⟨rfl, by decide, by decide⟩
  | readers n =>
    obtain rfl : l = _ := h
    exact .inr ⟨by simp, by simp [Multiset.count_replicate]⟩

namespace World

variable {v w : World} {r : RecordId} {rec : Record} {s : Source} {a : Access}

/-- How many guards of one access are on a record's object. -/
def lent (w : World) (r : RecordId) (a : Access) : Nat :=
  w.guards.countP fun g => g.2.record = r ∧ g.2.access = a

/-- Whether a guard is on a record's object. -/
def IsGuarded (w : World) (r : RecordId) : Prop := ∃ g ∈ w.guards, g.2.record = r

/-- Whether the guards on a record's object leave room for a borrow: a shared one stands
beside readers, an exclusive one stands alone. -/
def Admits (w : World) (r : RecordId) : Access → Prop
  | .shared => w.lent r .exclusive = 0
  | .exclusive => ¬ w.IsGuarded r

/-- How a request to borrow the object of a record is met. -/
inductive Meets (w : World) (r : RecordId) (a : Access) (grants : Prop)
    (refuses : AccessRefusal → Prop) : Prop where
  | granted : w.Admits r a → grants → Meets w r a grants refuses
  /-- A guard is in the way, and its access is the one reported. -/
  | refused (held : Access) : ¬ w.Admits r a → 0 < w.lent r held → refuses (.conflict held) →
    Meets w r a grants refuses

theorem Meets.imp {p q : Prop} {f g : AccessRefusal → Prop} (h : w.Meets r a p f) (hp : p → q)
    (hf : ∀ e, f e → g e) : w.Meets r a q g := by
  cases h with
  | granted ha h => exact .granted ha (hp h)
  | refused m ha hm h => exact .refused m ha hm (hf _ h)

/-! ### The guards and the counter -/

theorem count_loans (r : RecordId) (a : Access) : (w.loans r).count a = w.lent r a := by
  rw [loans, Multiset.coe_count, List.count_eq_countP, List.countP_map, List.countP_filter, lent]
  apply List.countP_congr
  intro g _
  simp [and_comm]

theorem isGuarded_iff : w.IsGuarded r ↔ 0 < w.lent r .shared ∨ 0 < w.lent r .exclusive := by
  simp only [lent, List.countP_pos_iff, IsGuarded, decide_eq_true_iff]
  constructor
  · rintro ⟨g, hg, hr⟩
    cases ha : g.2.access with
    | shared => exact .inl ⟨g, hg, hr, ha⟩
    | exclusive => exact .inr ⟨g, hg, hr, ha⟩
  · rintro (⟨g, hg, hr, -⟩ | ⟨g, hg, hr, -⟩) <;> exact ⟨g, hg, hr⟩

theorem Sound.borrow_cases (h : w.Sound) (hr : w.records[r]? = some rec) :
    (rec.borrow = .writer ∧ w.lent r .exclusive = 1 ∧ w.lent r .shared = 0) ∨
      (rec.borrow = .readers (w.lent r .shared) ∧ w.lent r .exclusive = 0) := by
  simp only [← count_loans]
  exact (h.agrees hr).lent.cases

theorem Sound.flag_cases (h : w.Sound) (hr : w.records[r]? = some rec) :
    (w.lent r .exclusive = 1 ∧ w.lent r .shared = 0 ∧ rec.borrow.flag = -1) ∨
      (w.lent r .exclusive = 0 ∧ rec.borrow.flag = w.lent r .shared) := by
  obtain ⟨hb, hx, hs⟩ | ⟨hb, hx⟩ := h.borrow_cases hr
  · exact .inl ⟨hx, hs, by rw [hb]; rfl⟩
  · exact .inr ⟨hx, by rw [hb]; rfl⟩

/-- What a guard gives back when it ends is there. -/
theorem Sound.flag_of_guard (h : w.Sound) {g : Nat} {guard : Guard} (hg : w.guard? g = some guard) :
    ∃ rec, w.records[guard.record]? = some rec ∧ rec.borrow.Bears guard.access := by
  have hmem := mem_guards hg
  obtain ⟨rec, hr⟩ : ∃ rec, w.records[guard.record]? = some rec := h.record_of_guard hmem
  have hpos : 0 < w.lent guard.record guard.access :=
    List.countP_pos_iff.mpr ⟨_, hmem, by simp⟩
  refine ⟨rec, hr, ?_⟩
  obtain ⟨hx, hs, hf⟩ | ⟨hx, hf⟩ := h.flag_cases hr
  · cases ha : guard.access with
    | shared =>
      rw [ha] at hpos
      omega
    | exclusive => exact hf
  · cases ha : guard.access with
    | shared =>
      rw [ha] at hpos
      simp only [Borrow.Bears, hf]
      omega
    | exclusive =>
      rw [ha] at hpos
      omega

/-! ### Guards that come and go -/

/-- One guard more is in force in `v`: one of access `a` on the object of `r`. -/
def Gains (w : World) (r : RecordId) (a : Access) (v : World) : Prop :=
  ∀ q b, v.lent q b = w.lent q b + if q = r ∧ b = a then 1 else 0

theorem Gains.cancel {u : World} (h : u.Gains r a w) (k : v.Gains r a w) : u.lent = v.lent := by
  funext q b
  have hu := h q b
  have hv := k q b
  omega

theorem gains_cons {g : Nat} (guard : Guard) (h : v.guards = (g, guard) :: w.guards) :
    w.Gains guard.record guard.access v := by
  intro q b
  simp only [lent, h, List.countP_cons, decide_eq_true_iff, eq_comm (a := q), eq_comm (a := b)]

theorem Gains.congr {u : World} (h : w.Gains r a v) (hu : u.lent = v.lent) : w.Gains r a u := by
  intro q b
  rw [hu, h q b]

theorem lent_narrow (g i : Nat) : (w.narrow g i).lent = w.lent := by
  funext q b
  rw [lent, narrow, List.countP_map, lent]
  apply List.countP_congr
  intro e _
  by_cases he : e.1 = g <;> simp [he]

theorem Sound.gains_endBorrow (h : w.Sound) {g : Nat} {guard : Guard}
    (hg : w.guard? g = some guard) : (w.endBorrow g).Gains guard.record guard.access w := by
  have hend : (w.endBorrow g).guards = w.guards.filter fun e => e.1 ≠ g := by
    simp only [endBorrow, hg]
  have hperm := perm_filter_of_lookup h.distinct hg
  intro q b
  rw [lent, hperm.countP_eq, List.countP_cons, lent, hend]
  simp only [decide_eq_true_iff, eq_comm (a := q), eq_comm (a := b)]

/-- A guard that reads can be copied. -/
theorem Sound.gains_duplicate (h : w.Sound) {g : Nat} {guard : Guard} (hg : w.guard? g = some guard)
    (ha : guard.access = .shared) :
    (w.duplicate g).1 = some w.nextGuard ∧ w.Gains guard.record .shared (w.duplicate g).2 := by
  obtain ⟨rec, hr, hflag⟩ := h.flag_of_guard hg
  obtain ⟨r, _, source, part⟩ := guard
  obtain rfl := ha
  cases hb : rec.borrow with
  | writer =>
    rw [hb] at hflag
    have hpos : (0 : Int) < -1 := hflag
    omega
  | readers n =>
    have hd : w.duplicate g = (some w.nextGuard,
        { w.modifyRecord r fun rec => { rec with borrow := .readers (n + 1) } with
          guards := (w.nextGuard, ⟨r, .shared, source, part⟩) :: w.guards
          nextGuard := w.nextGuard + 1 }) := by
      simp only [duplicate, hg, hr, Option.map_some, hb, Borrow.share]
      rfl
    rw [hd]
    exact ⟨rfl, gains_cons ⟨r, .shared, source, part⟩ rfl⟩

/-! ### Borrows -/

/-- The counter takes a borrow just if the guards leave room for it. -/
theorem Sound.meets_take (h : w.Sound) (hr : w.records[r]? = some rec) (a : Access) :
    w.Meets r a (∃ b, rec.borrow.take a = .ok b) fun e => rec.borrow.take a = .error e := by
  obtain ⟨hb, hx, hs⟩ | ⟨hb, hx⟩ := h.borrow_cases hr
  · -- a writer is in the way of everyone
    have hguard : w.IsGuarded r := isGuarded_iff.mpr (.inr (by omega))
    rw [hb]
    cases a with
    | shared => exact .refused .exclusive (by simp [Admits, hx]) (by omega) rfl
    | exclusive => exact .refused .exclusive (fun hno => hno hguard) (by omega) rfl
  · rw [hb]
    cases a with
    | shared => exact .granted hx ⟨_, rfl⟩
    | exclusive =>
      cases hn : w.lent r .shared with
      | zero =>
        apply Meets.granted _ ⟨_, rfl⟩
        intro hguard
        have := isGuarded_iff.mp hguard
        omega
      | succ n =>
        have hguard : w.IsGuarded r := isGuarded_iff.mpr (.inl (by omega))
        exact .refused .shared (fun hno => hno hguard) (by omega) rfl

/-- A handle to an object that is alive leads there. -/
theorem Sound.reach_of_alive (h : w.Sound) (hs : w.referent s = some r) (ha : w.isAlive r = true) :
    w.reach s = .ok r := by
  cases s with
  | owner i =>
    rw [reach, show w.owner i = some r from hs]
    rfl
  | soft p =>
    obtain ⟨k, hk, rfl⟩ := Option.map_eq_some_iff.mp hs
    rw [reach, hk]
    exact h.watched_of_alive (watches_mem_stakes.mpr (.inl ⟨p, soft?_of_soft hk⟩)) ha

theorem object?_of_alive {items : List Item} (hr : w.records[r]? = some rec)
    (hal : rec.alive = .ok items) : w.object? r = some items := by
  unfold Record.alive at hal
  split_ifs at hal
  cases ho : rec.object with
  | none => simp [ho] at hal
  | some _ =>
    rw [ho] at hal
    rw [object?_of_record hr, ho, Except.ok.inj hal]

/-- What comes of a borrow through a handle to an object that is alive. -/
theorem Sound.meets_lend (h : w.Sound) (hs : w.referent s = some r) (ha : w.isAlive r = true)
    (a : Access) :
    w.Meets r a
      (∃ v, w.lend s a = (.ok w.nextGuard, v) ∧ v.guard? w.nextGuard = some ⟨r, a, s, .whole⟩ ∧
        v.object? r = w.object? r ∧ v.scans = w.scans ∧ w.Gains r a v)
      fun e => w.lend s a = (.error e, w) := by
  have hreach := h.reach_of_alive hs ha
  obtain ⟨rec, hr, hrec⟩ := isAlive_iff.mp ha
  obtain ⟨items, hal⟩ := alive_of_isAlive hrec
  apply (h.meets_take hr a).imp
  · rintro ⟨b, hb⟩
    refine ⟨{ w.modifyRecord r fun rec => { rec with borrow := b } with
        guards := (w.nextGuard, ⟨r, a, s, .whole⟩) :: w.guards, nextGuard := w.nextGuard + 1 },
      ?_, ?_, ?_, rfl, gains_cons ⟨r, a, s, .whole⟩ rfl⟩
    · simp only [lend, hreach, hr, hal, hb]
      rfl
    · simp [guard?]
    · simp [object?, modifyRecord, Array.getElem?_modify, hr]
  · intro e hb
    simp only [lend, hreach, hr, hal, hb]

/-- What comes of reading an object through a handle. -/
theorem Sound.meets_inspect (h : w.Sound) (hs : w.referent s = some r) (ha : w.isAlive r = true)
    (a : Access) :
    w.Meets r a (∃ items, w.object? r = some items ∧ w.inspect s a = .ok (r, items))
      fun e => w.inspect s a = .error e := by
  have hreach := h.reach_of_alive hs ha
  obtain ⟨rec, hr, hrec⟩ := isAlive_iff.mp ha
  obtain ⟨items, hal⟩ := alive_of_isAlive hrec
  apply (h.meets_take hr a).imp
  · rintro ⟨b, hb⟩
    refine ⟨items, object?_of_alive hr hal, ?_⟩
    simp [inspect, hreach, open?, hr, Record.open?, hal, hb, bind, Except.bind, pure, Except.pure]
  · intro e hb
    simp [inspect, hreach, open?, hr, Record.open?, hal, hb, bind, Except.bind]

/-- A guard on a part of an object: a new one, or none if there is no such part. -/
def LendsPart {α : Type} (w : World) (r : RecordId) (a : Access) (part : Except AccessRefusal α)
    (outcome : Except Fault Nat × World) : Prop :=
  match part with
  | .ok _ => outcome.1 = .ok w.nextGuard ∧ w.Gains r a outcome.2
  | .error e => outcome.1 = .error (.refused (.access e)) ∧ outcome.2.lent = w.lent

/-- The new guard is narrowed, or ended. -/
theorem lendsPart_of_cases {α : Type} {part : Except AccessRefusal α}
    {outcome : Except Fault Nat × World} (hv : v.Sound)
    (hg : v.guard? w.nextGuard = some ⟨r, a, s, .whole⟩) (hgains : w.Gains r a v)
    (hok : ∀ x, part = .ok x → ∃ i, outcome = (.ok w.nextGuard, v.narrow w.nextGuard i))
    (herror : ∀ e, part = .error e →
      outcome = (.error (.refused (.access e)), v.endBorrow w.nextGuard)) :
    w.LendsPart r a part outcome := by
  cases part with
  | ok x =>
    obtain ⟨i, rfl⟩ := hok x rfl
    exact ⟨rfl, hgains.congr (lent_narrow _ i)⟩
  | error e =>
    rw [herror e rfl]
    exact ⟨rfl, (hv.gains_endBorrow hg).cancel hgains⟩

theorem guarded_eq {items : List Item} {g : Nat} (hg : w.guard? g = some ⟨r, a, s, .whole⟩)
    (ho : w.object? r = some items) : w.guarded g = items := by
  simp only [guarded, hg]
  rw [← object?, ho, Option.getD_some]

/-- A guard on an element by its index. -/
theorem Sound.meets_lendElement (h : w.Sound) (hs : w.referent s = some r)
    (ha : w.isAlive r = true) (a : Access) (i : UInt64) :
    w.Meets r a
      (∃ items, w.object? r = some items ∧
        w.LendsPart r a (elementAt items i) ((Op.lendElement s a i).run.run w))
      fun e => (Op.lendElement s a i).run.run w = (.error (.refused (.access e)), w) := by
  obtain ⟨rec, hr, hrec⟩ := isAlive_iff.mp ha
  obtain ⟨items, hal⟩ := alive_of_isAlive hrec
  have hobj := object?_of_alive hr hal
  apply (h.meets_lend hs ha a).imp
  · rintro ⟨v, hl, hg, ho, -, hgains⟩
    have hv : v.Sound := by simpa [Action.run, hl] using h.run (.lend s a)
    have hrun := Op.run_lendElement_of_ok (by rw [hl]) i
    rw [hl, guarded_eq hg (ho.trans hobj)] at hrun
    exact ⟨items, hobj, lendsPart_of_cases hv hg hgains
      (fun x hx => ⟨i.toNat, by rw [hrun, hx]⟩) fun e he => by rw [hrun, he]⟩
  · intro e hl
    have hrun := Op.run_lendElement_of_error (by rw [hl]) i
    rwa [hl] at hrun

/-- A guard on the element that a scan aims at. -/
theorem Sound.meets_lendScanned (h : w.Sound) {i : Nat} (hs : w.referent (.soft (.scan i)) = some r)
    (ha : w.isAlive r = true) (a : Access) (aim : Aim) :
    w.Meets r a
      (∃ items, w.object? r = some items ∧
        w.LendsPart r a ((w.scan i).position.aim items.length aim)
          ((Op.lendScanned a i aim).run.run w))
      fun e => (Op.lendScanned a i aim).run.run w = (.error (.refused (.access e)), w) := by
  obtain ⟨rec, hr, hrec⟩ := isAlive_iff.mp ha
  obtain ⟨items, hal⟩ := alive_of_isAlive hrec
  have hobj := object?_of_alive hr hal
  apply (h.meets_lend hs ha a).imp
  · rintro ⟨v, hl, hg, ho, hscans, hgains⟩
    have hv : v.Sound := by simpa [Action.run, hl] using h.run (.lend (.soft (.scan i)) a)
    have hrun := Op.run_lendScanned_of_ok (by rw [hl]) aim (by rw [hl])
    have hscan : v.scan i = w.scan i := by rw [scan, hscans, scan]
    rw [hscan, guarded_eq hg (ho.trans hobj)] at hrun
    exact ⟨items, hobj, lendsPart_of_cases hv hg hgains
      (fun x hx => ⟨x.toNat, by rw [hrun, hx]⟩) fun e he => by rw [hrun, he]⟩
  · intro e hl
    have hrun := Op.run_lendScanned_of_error (by rw [hl]) aim
    rwa [hl] at hrun

/-! ### Destruction -/

theorem object?_demolish (r : RecordId) : (w.demolish r).object? r = none := by
  unfold demolish
  split
  · rename_i hr
    simp [object?, hr]
  · rename_i rec hr
    split
    · rename_i ho
      rw [object?_of_record hr, ho]
    · simp [object?, schedule, modifyRecord, Array.getElem?_modify, hr]

/-- What has an owner is there. -/
theorem Sound.object?_of_isOwned (h : w.Sound) (ho : w.IsOwned r) :
    (w.object? r).isSome = true := by
  obtain ⟨rec, hr, hrec⟩ := isAlive_iff.mp ((h.isOwned_iff r).mp ho)
  rw [object?_of_record hr]
  exact (Bool.and_eq_true_iff.mp hrec).2

/-- An action that takes an object away unless it is borrowed destroys it exactly if no
guard is on it. -/
theorem Sound.begins_iff (h : w.Sound) {a : Action} (ho : (w.object? r).isSome = true)
    (hd : w.isBorrowed r = false → (a.run w).object? r = none) :
    w.Begins a r ↔ ¬ w.IsGuarded r := by
  constructor
  · rintro hb ⟨g, hg, hr⟩
    obtain ⟨-, -, -, hl, -⟩ := h.begins hb
    exact forall_guards_of_loans hl g hg hr
  · intro hg
    obtain ⟨items, hitems⟩ := Option.isSome_iff_exists.mp ho
    obtain ⟨rec, hr, hobj⟩ := Option.bind_eq_some_iff.mp hitems
    apply h.begins_of_emptied hr (by rw [hobj]; rfl)
    apply hd
    rw [← Bool.not_eq_true, h.isBorrowed_iff]
    exact hg

theorem Sound.resetOwner_iff (h : w.Sound) {i : Nat} (hi : w.owner i = some r) :
    ((w.resetOwner i).1 = .error .destroyedWhileBorrowed ↔ w.IsGuarded r) ∧
      (w.Begins (.resetOwner i) r ↔ ¬ w.IsGuarded r) := by
  have howned : w.IsOwned r := by
    unfold owner owner? at hi
    cases ho : w.owners[i]? with
    | none => simp [ho] at hi
    | some o =>
      rw [ho, Option.getD_some] at hi
      exact .inl (Array.mem_of_getElem? (hi ▸ ho))
  constructor
  · rw [IsGuarded, ← h.isBorrowed_iff]
    simp only [resetOwner, hi]
    split_ifs with hb <;> simp [hb]
  · apply h.begins_iff (h.object?_of_isOwned howned)
    intro hb
    simp only [Action.run, resetOwner, hi, hb]
    exact object?_demolish r

theorem Sound.resetLink_iff (h : w.Sound) {g i : Nat} {guard : Guard} {item : Item}
    (hg : w.writable? g = some guard) (hi : w.element? guard i = some item)
    (hl : item.link = some r) :
    ((w.resetLink g i).1 = .error .destroyedWhileBorrowed ↔ w.IsGuarded r) ∧
      (w.Begins (.resetLink g i) r ↔ ¬ w.IsGuarded r) := by
  have howned : w.IsOwned r := by
    obtain ⟨rec, items, hrec, hobj, hitem⟩ := element?_eq_some hi
    have hmem : rec ∈ w.records := Array.mem_of_getElem? hrec
    exact .inr (.inl ⟨item, .inl ⟨rec, hmem, items, hobj, List.mem_of_getElem? hitem⟩, hl⟩)
  constructor
  · rw [IsGuarded, ← h.isBorrowed_iff]
    simp only [resetLink, hg, hi, hl]
    split_ifs with hb <;> simp [hb]
  · apply h.begins_iff (h.object?_of_isOwned howned)
    intro hb
    simp only [Action.run, resetLink, hg, hi, hl, hb]
    exact object?_demolish r

/-- An owner that goes takes its object along unless a guard is on it. -/
theorem Sound.dropOwner_iff (h : w.Sound) {rest : List Task}
    (hp : w.pending = .dropOwner (some r) :: rest) : w.Begins .tick r ↔ ¬ w.IsGuarded r := by
  apply h.begins_iff (h.object?_of_isOwned (.inr (.inr (by simp [hp]))))
  intro hb
  have hb' : (({ w with pending := rest } : World).schedule [.forget r]).isBorrowed r = false := hb
  simp only [Action.run, tick, hp, perform, dropOwner, hb']
  exact object?_demolish r

/-- The last handle of a record is not that of a guard, so what is still there goes with it. -/
theorem Reachable.forget_last (h : w.Reachable) {rest : List Task}
    (hp : w.pending = .forget r :: rest) (hr : w.records[r]? = some rec) (hn : rec.handles = 1)
    (ho : rec.object.isSome = true) : ¬ w.IsGuarded r ∧ w.Begins .tick r := by
  have hs := h.sound
  have hbegins : w.Begins .tick r := by
    apply hs.begins_of_emptied hr ho
    have hleft := (replaces_modifyRecord (w := { w with pending := rest }) hr
      fun rec => { rec with handles := rec.handles - 1 }).self
    cases hb : rec.borrow.isHeld with
    | false =>
      simp only [Action.run, tick, hp, perform, forget, hleft]
      simp only [hn, hb, Option.any_some]
      exact object?_demolish r
    | true =>
      -- a guard would have a handle of its own
      have hrec : w.tick.records[r]? = some { rec with handles := rec.handles - 1 } := by
        simp only [tick, hp, perform, forget, hleft]
        simpa [hn, hb] using hleft
      have hpos := (h.reaches (.once .tick)).handles_pos hrec ho
      simp [hn] at hpos
  have hno := (hs.begins_iff (a := .tick) (by rwa [object?_of_record hr])
    fun _ => by
      obtain ⟨new, hnew, hret, -⟩ := hs.begins hbegins
      rw [object?_of_record hnew, (isRetiring_iff.mp hret).1]).mp hbegins
  exact ⟨hno, hbegins⟩

/-! ### Every reachable world -/

/-- Many readers or one writer, and what follows from it for borrows through any handle. -/
structure Exclusive (w : World) : Prop where
  /-- One writer, and no reader, and the counter is -1; or readers, and it is their number. -/
  counter : ∀ (r : RecordId) (rec : Record), w.records[r]? = some rec →
    (w.lent r .exclusive = 1 ∧ w.lent r .shared = 0 ∧ rec.borrow.flag = -1) ∨
      (w.lent r .exclusive = 0 ∧ rec.borrow.flag = w.lent r .shared)
  lends : ∀ s r a, w.referent s = some r → w.isAlive r = true →
    w.Meets r a ((w.lend s a).1 = .ok w.nextGuard ∧ w.Gains r a (w.lend s a).2)
      fun e => w.lend s a = (.error e, w)
  inspects : ∀ s r a, w.referent s = some r → w.isAlive r = true →
    w.Meets r a (∃ items, w.object? r = some items ∧ w.inspect s a = .ok (r, items))
      fun e => w.inspect s a = .error e
  lendsElement : ∀ s r a i, w.referent s = some r → w.isAlive r = true →
    w.Meets r a
      (∃ items, w.object? r = some items ∧
        w.LendsPart r a (elementAt items i) ((Op.lendElement s a i).run.run w))
      fun e => (Op.lendElement s a i).run.run w = (.error (.refused (.access e)), w)
  lendsScanned : ∀ i r a aim, w.referent (.soft (.scan i)) = some r → w.isAlive r = true →
    w.Meets r a
      (∃ items, w.object? r = some items ∧
        w.LendsPart r a ((w.scan i).position.aim items.length aim)
          ((Op.lendScanned a i aim).run.run w))
      fun e => (Op.lendScanned a i aim).run.run w = (.error (.refused (.access e)), w)
  narrows : ∀ g i, (w.narrow g i).lent = w.lent
  duplicates : ∀ g guard, w.guard? g = some guard → guard.access = .shared →
    (w.duplicate g).1 = some w.nextGuard ∧ w.Gains guard.record .shared (w.duplicate g).2
  /-- A guard that ends finds the counter as it must be, and takes itself off. -/
  ends : ∀ g guard, w.guard? g = some guard →
    (∃ rec, w.records[guard.record]? = some rec ∧ rec.borrow.Bears guard.access) ∧
    (w.endBorrow g).Gains guard.record guard.access w

/-- Destruction waits for guards. -/
structure Spares (w : World) : Prop where
  resetOwner : ∀ i r, w.owner i = some r →
    ((w.resetOwner i).1 = .error .destroyedWhileBorrowed ↔ w.IsGuarded r) ∧
      (w.Begins (.resetOwner i) r ↔ ¬ w.IsGuarded r)
  resetLink : ∀ g i guard item r, w.writable? g = some guard → w.element? guard i = some item →
    item.link = some r →
    ((w.resetLink g i).1 = .error .destroyedWhileBorrowed ↔ w.IsGuarded r) ∧
      (w.Begins (.resetLink g i) r ↔ ¬ w.IsGuarded r)
  dropOwner : ∀ r rest, w.pending = .dropOwner (some r) :: rest →
    (w.Begins .tick r ↔ ¬ w.IsGuarded r)
  /-- No guard is left when the last handle goes, so that what is still there goes too. -/
  lastHandle : ∀ r rest rec, w.pending = .forget r :: rest → w.records[r]? = some rec →
    rec.handles = 1 → rec.object.isSome = true → ¬ w.IsGuarded r ∧ w.Begins .tick r

/-- In every reachable world, in the midst of destruction too, an object has either one
writer or any number of readers, and the counter in its record says which. A borrow through
an owner, an observing handle or a scan, of the whole or of an element, is granted exactly
if the guards in force leave room for it, and is otherwise refused for the access that is
really held. A guard can always be narrowed, copied if it reads, and ended. An object is
destroyed, where it is about to be, exactly if no guard is on it. -/
theorem readers_xor_writer (h : w.Reachable) : w.Exclusive ∧ w.Spares := by
  have hs := h.sound
  constructor
  · exact
      { counter := fun r rec hr => hs.flag_cases hr
        lends := fun s r a href ha => by
          apply (hs.meets_lend href ha a).imp
          · rintro ⟨v, hl, -, -, -, hgains⟩
            rw [hl]
            exact ⟨rfl, hgains⟩
          · exact fun _ => id
        inspects := fun s r a href ha => hs.meets_inspect href ha a
        lendsElement := fun s r a i href ha => hs.meets_lendElement href ha a i
        lendsScanned := fun i r a aim href ha => hs.meets_lendScanned href ha a aim
        narrows := lent_narrow
        duplicates := fun g guard hg ha => hs.gains_duplicate hg ha
        ends := fun g guard hg => ⟨hs.flag_of_guard hg, hs.gains_endBorrow hg⟩ }
  · exact
      { resetOwner := fun i r hi => hs.resetOwner_iff hi
        resetLink := fun g i guard item r hg hi hl => hs.resetLink_iff hg hi hl
        dropOwner := fun r rest hp => hs.dropOwner_iff hp
        lastHandle := fun r rest rec hp hr hn ho => h.forget_last hp hr hn ho }

/-- A row with a scan and two guards that read: one through the scan, on an element, and a
copy of it. -/
def readTwice : World :=
  [.construct 0 ⟨.row 2, .int, .tracked⟩ ⟨2, fun _ => .int 7, none⟩, .newScan (some 0) 0,
    .lend (.soft (.scan 0)) .shared, .narrow 0 0, .duplicate 0].foldl Action.run
      (start defaultGrant)

theorem readers_xor_writer_readTwice :
    readTwice.lent 0 .shared = 2 ∧ (readTwice.lend (.owner 0) .shared).1 = .ok 2 ∧
      readTwice.lend (.owner 0) .exclusive = (.error (.conflict .shared), readTwice) ∧
      ¬ readTwice.Begins (.resetOwner 0) 0 := by
  have hlent : readTwice.lent 0 .shared = 2 := by decide
  have hguard : readTwice.IsGuarded 0 := isGuarded_iff.mpr (.inl (by omega))
  obtain ⟨hx, hspares⟩ := readers_xor_writer (w := readTwice) (reachable_foldl _ _)
  refine ⟨hlent, ?_, ?_, fun hb => ((hspares.resetOwner 0 0 (by decide)).2.mp hb) hguard⟩
  · cases hx.lends (.owner 0) 0 .shared (by decide) (by decide) with
    | granted _ hgrant => exact hgrant.1
    | refused held hno _ _ => exact absurd (show readTwice.lent 0 .exclusive = 0 by decide) hno
  · cases hx.lends (.owner 0) 0 .exclusive (by decide) (by decide) with
    | granted hno _ => exact absurd hguard hno
    | refused held _ hheld hrefused =>
      cases held with
      | shared => exact hrefused
      | exclusive =>
        have hnone : readTwice.lent 0 .exclusive = 0 := by decide
        omega

end World

end Custody

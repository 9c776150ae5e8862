import Custody.Proofs.Access
import Custody.Proofs.Clamping
import Custody.Proofs.Scans.Copies

/-! Scans that are used up while their range changes underneath. In every reachable world a scan
measures against the length of the range that it is of, so no index that it comes to lies outside
of what it sees. Through every run of what is done elsewhere, a scan that is asked for
element after element gives them in order, each as it is then; at the end it gives none, and
before the end it fails, without moving, exactly while its range cannot be read. Main result:
`scans_in_bounds`. -/

namespace Custody

namespace World

variable {u v w : World} {i m n : Nat} {r : RecordId} {items : List Item} {s : Source} {a : Access}
  {e e' : AccessRefusal}

/-! ### What can be read -/

/-- An object cannot be read through a handle: the handle is empty, or the object is gone, or it is
being written. -/
inductive Unreadable (w : World) (s : Source) : AccessRefusal → Prop where
  | null : w.referent s = none → Unreadable w s .null
  | gone (r : RecordId) : w.referent s = some r → w.isAlive r = false → Unreadable w s .gone
  | conflict (r : RecordId) (g : Nat × Guard) : w.referent s = some r → w.isAlive r = true →
    g ∈ w.guards → g.2.record = r → g.2.access = .exclusive → Unreadable w s (.conflict .exclusive)

theorem Unreadable.unique (h : w.Unreadable s e) (k : w.Unreadable s e') : e = e' := by
  cases h <;> cases k <;> simp_all

theorem Unreadable.ne_outOfRange (h : w.Unreadable s e) (t k : Nat) : e ≠ .outOfRange t k := by
  cases h <;> exact nofun

/-- What is found is what a reader is told. -/
theorem Sound.inspect_eq_ok (h : w.Sound) (hv : w.inspect s a = .ok (r, items)) :
    w.referent s = some r ∧ w.open? r a = .ok items := by
  cases h.finds s a with
  | null hs hreach | gone _ hs ha hreach => cases (inspect_of_reach hreach).symm.trans hv
  | conflict _ rec _ g hs ha hg hgr hway hreach hr hal hb =>
    cases (inspect_of_conflict hreach hr hal hb).symm.trans hv
  | free _ rec _ b hs ha hadmits hreach hr hal hb =>
    cases (inspect_of_take hreach hr hal hb).symm.trans hv
    exact ⟨hs, open?_of_take hr hal hb⟩

theorem Sound.inspect_shared_cases (h : w.Sound) (s : Source) :
    (∃ e, w.inspect s .shared = .error e ∧ w.Unreadable s e) ∨
      ∃ r items, w.inspect s .shared = .ok (r, items) ∧ ∀ e, ¬ w.Unreadable s e := by
  cases h.finds s .shared with
  | null hs hreach => exact .inl ⟨.null, inspect_of_reach hreach, .null hs⟩
  | gone r hs ha hreach => exact .inl ⟨.gone, inspect_of_reach hreach, .gone r hs ha⟩
  | conflict r rec items g hs ha hg hgr hway hreach hr hal hb =>
    have hexclusive : g.2.access = .exclusive := hway.resolve_left nofun
    rw [hexclusive] at hb
    exact .inl ⟨_, inspect_of_conflict hreach hr hal hb, .conflict r g hs ha hg hgr hexclusive⟩
  | free r rec items b hs ha hadmits hreach hr hal hb =>
    refine .inr ⟨r, items, inspect_of_take hreach hr hal hb, fun e he => ?_⟩
    cases he with
    | null hnone => simp [hs] at hnone
    | gone r' hr' hdead =>
      obtain rfl := Option.some.inj (hs.symm.trans hr')
      simp [ha] at hdead
    | conflict r' g hr' _ hg hgr hexclusive =>
      obtain rfl := Option.some.inj (hs.symm.trans hr')
      have hnone := List.countP_eq_zero.mp hadmits g hg
      simp [hgr, hexclusive] at hnone

theorem Sound.inspect_shared_eq_error_iff (h : w.Sound) :
    w.inspect s .shared = .error e ↔ w.Unreadable s e := by
  obtain ⟨e', he', hun⟩ | ⟨r, items, hok, hnone⟩ := h.inspect_shared_cases s
  · rw [he']
    exact ⟨fun heq => Except.error.inj heq ▸ hun, fun he => congrArg _ (hun.unique he)⟩
  · rw [hok]
    exact ⟨nofun, fun he => absurd he (hnone e)⟩

/-! ### No index out of bounds -/

theorem referent_scan (w : World) (i : Nat) :
    w.referent (.soft (.scan i)) = (w.scan i).array.map Watch.record := by
  rw [referent, soft, soft?, scan]
  cases w.scans[i]? <;> rfl

/-- What is seen through a scan is as long as the scan measures against. -/
theorem Reachable.length_inspected (h : w.Reachable)
    (hv : w.inspect (.soft (.scan i)) a = .ok (r, items)) :
    items.length = (w.scan i).position.length.toNat := by
  obtain ⟨hs, hopen⟩ := h.sound.inspect_eq_ok hv
  exact (h.length_scan hs (open?_eq_ok hopen).2).symm

/-- A guard from a scan is on as many elements as the scan measures against. -/
theorem Reachable.length_guarded (h : w.Reachable) {g : Nat}
    (hl : w.lend (.soft (.scan i)) a = (.ok g, v)) :
    (v.guarded g).length = (w.scan i).position.length.toNat := by
  cases h.sound.finds (.soft (.scan i)) a with
  | null hs hreach | gone _ hs ha hreach => simp [lend, hreach] at hl
  | conflict r rec items g hs ha hg hgr hway hreach hr hal hb =>
    simp [lend, hreach, hr, hal, hb] at hl
  | free r rec items b hs ha hadmits hreach hr hal hb =>
    have ho := object?_of_alive hr hal
    rw [lend_of_take hreach hr hal hb] at hl
    cases hl
    rw [guarded_eq guard?_lending ((object?_lending r).trans ho), h.length_scan hs ho]

/-- A usable scan is one whose range can be read. -/
theorem Reachable.checkScan_eq_error_iff (h : w.Reachable) :
    w.checkScan i = .error e ↔ w.Unreadable (.soft (.scan i)) e := by
  rw [← h.sound.inspect_shared_eq_error_iff, checkScan]
  cases hinspect : w.inspect (.soft (.scan i)) .shared with
  | error e' => simp [bind, Except.bind]
  | ok x =>
    obtain ⟨r, items⟩ := x
    have hle := (w.scan i).position.index_le
    have hlength := h.length_inspected hinspect
    have hin : ¬ items.length < (w.scan i).position.index.toNat := by omega
    simp [bind, Except.bind, hin, pure, Except.pure]

/-- What holds of a scan at every moment. -/
structure InBounds (w : World) (i : Nat) : Prop where
  /-- It measures against the length of its handle, which is zero without a range. -/
  length : (w.scan i).position.length.toNat = w.softLength (w.scan i).array
  null : (w.scan i).isNull = true → (w.scan i).position.length = 0
  /-- What it sees has that length, to read it or to write it. -/
  views : ∀ a r items, w.inspect (.soft (.scan i)) a = .ok (r, items) →
    items.length = (w.scan i).position.length.toNat
  guards : ∀ a g v, w.lend (.soft (.scan i)) a = (.ok g, v) →
    (v.guarded g).length = (w.scan i).position.length.toNat
  /-- Of what it sees, every index that it aims at has an element. -/
  indexes : ∀ a r items aim j, w.inspect (.soft (.scan i)) a = .ok (r, items) →
    (w.scan i).position.aim items.length aim = .ok j → ∃ item, elementAt items j = .ok item
  attempts : ∀ aim p, ((Op.readScan .attempt i aim).run.run w).1 ≠ .error (.panicked p) ∧
    ∀ a, ((Op.lendScanned a i aim).run.run w).1 ≠ .error (.panicked p)
  /-- To check it never finds it beyond its range. -/
  checks : ∀ e, w.checkScan i = .error e ↔ w.Unreadable (.soft (.scan i)) e
  checked : ∀ t k, w.checkScan i ≠ .error (.outOfRange t k)
  remaining : (w.scan i).position.index.toNat + (w.scan i).position.remaining =
    (w.scan i).position.length.toNat
  /-- Left alone, it gives the elements that it sees from its index on, and says at each how many
  are to come. -/
  gives : ∀ r items, w.inspect (.soft (.scan i)) .shared = .ok (r, items) →
    (items.drop (w.scan i).position.index.toNat).length = (w.scan i).position.remaining ∧
    ∀ n, ∃ v, (Op.nextValues i n).run.run w =
      (.ok (draw n (items.drop (w.scan i).position.index.toNat)), v)

theorem Classifies.ne_panicked {α : Type} {t : Int} {spent : World}
    {grants : RecordId → List Item → Nat → Item → α → World → Prop} {o : Except Fault α × World}
    (h : w.Classifies s a t spent grants o) (p : Panic) : o.1 ≠ .error (.panicked p) := by
  cases h <;> exact nofun

/-- A scan whose range can be read is where a position in a slice of the same elements is. -/
theorem Reachable.follows_of_inspect (h : w.Reachable)
    (hv : w.inspect (.soft (.scan i)) .shared = .ok (r, items)) :
    w.Follows id r i ⟨⟨0, items⟩, (w.scan i).position⟩ := by
  obtain ⟨hs, hopen⟩ := h.sound.inspect_eq_ok hv
  rw [referent_scan] at hs
  obtain ⟨k, hk, rfl⟩ := Option.map_eq_some_iff.mp hs
  refine ⟨⟨k, rfl, ?_⟩, by rwa [List.map_id], (h.length_inspected hv).symm⟩
  cases hc : w.scans[i]? with
  | none => simp [scan, hc] at hk
  | some c =>
    rw [scan_eq hc] at hk ⊢
    rw [← hk]

theorem Reachable.inBounds (h : w.Reachable) (i : Nat) : w.InBounds i where
  length := h.fitted_scan i
  null hn := by
    have hfit := h.fitted_scan i
    rw [Fitted, Option.isNone_iff_eq_none.mp hn] at hfit
    exact UInt64.toNat_inj.mp hfit
  views a r items := h.length_inspected
  guards a g v := h.length_guarded
  indexes a r items aim j hv haim := by
    obtain ⟨hs, hopen⟩ := h.sound.inspect_eq_ok hv
    obtain ⟨k, hk, -, hlt⟩ | ⟨herror, -⟩ := h.aim_cases hs (open?_eq_ok hopen).2 aim
    · obtain rfl := Except.ok.inj (hk.symm.trans haim)
      exact ⟨items[k.toNat], by rw [elementAt, List.getElem?_eq_getElem hlt]⟩
    · cases herror.symm.trans haim
  attempts aim p :=
    ⟨(h.readScan_classified i aim).ne_panicked p,
      fun a => (h.lendScanned_classified a i aim).ne_panicked p⟩
  checks e := h.checkScan_eq_error_iff
  checked t k hcheck := (h.checkScan_eq_error_iff.mp hcheck).ne_outOfRange t k rfl
  remaining := by
    have hle := (w.scan i).position.index_le
    rw [Position.remaining]
    omega
  gives r items hv := by
    have hfollows := h.follows_of_inspect hv
    refine ⟨hfollows.remaining.symm, fun n => ?_⟩
    have hrun := Op.run_nextValues h hfollows n
    rwa [List.map_id] at hrun

/-! ### One element -/

/-- How a scan answers when it is asked for the next element. At the end there is none. Before the
end it is the element at the scan's index, and the scan goes one further; or it fails, for the
reason that the range cannot be read. -/
inductive Yields (w : World) (i : Nat) : Except Fault (Option Item) × World → Prop where
  | ended : (w.scan i).position.isEnd = true → Yields w i (.ok none, w)
  | element (r : RecordId) (items : List Item) (item : Item) : (w.scan i).position.isEnd = false →
    w.inspect (.soft (.scan i)) .shared = .ok (r, items) →
    items[(w.scan i).position.index.toNat]? = some item →
    Yields w i (.ok (some item), w.moveScan i .next)
  | failed (e : AccessRefusal) : (w.scan i).position.isEnd = false →
    w.Unreadable (.soft (.scan i)) e → e ≠ .null →
    Yields w i (.error (.panicked (.fatal (.access e))), w.raise (.fatal (.access e)))

/-- Before the end, a scan whose range can be read is at an element. -/
theorem Reachable.scanned_here (h : w.Reachable) (hend : (w.scan i).position.isEnd = false)
    (hv : w.inspect (.soft (.scan i)) .shared = .ok (r, items)) :
    ∃ item, items[(w.scan i).position.index.toNat]? = some item ∧ w.scanned i .here = .ok item := by
  have hlt := Position.isEnd_eq_false_iff.mp hend
  have hlength := h.length_inspected hv
  have hin : (w.scan i).position.index.toNat < items.length := hlength ▸ hlt
  have haim := Position.aim_here hin (hlength ▸ (w.scan i).position.length.toNat_lt)
  refine ⟨_, List.getElem?_eq_getElem hin, ?_⟩
  rw [scanned, hv]
  change (w.scan i).position.aim items.length .here >>= elementAt items = _
  rw [haim]
  change elementAt items _ = _
  rw [elementAt, List.getElem?_eq_getElem hin]

theorem scanned_eq_error (hv : w.inspect (.soft (.scan i)) .shared = .error e) :
    w.scanned i .here = .error e := by
  rw [scanned, hv]
  rfl

/-- Without a range, a scan is at the end. -/
theorem Reachable.exists_referent (h : w.Reachable) (hend : (w.scan i).position.isEnd = false) :
    ∃ r, w.referent (.soft (.scan i)) = some r := by
  apply Option.ne_none_iff_exists'.mp
  intro hnone
  have hlt := Position.isEnd_eq_false_iff.mp hend
  have hfit := h.fitted_scan i
  rw [Fitted, ← referent_scan, hnone] at hfit
  exact absurd (hfit ▸ hlt) (Nat.not_lt_zero _)

theorem Reachable.yields (h : w.Reachable) (i : Nat) :
    w.Yields i ((Op.nextValue i).run.run w) := by
  cases hend : (w.scan i).position.isEnd with
  | true =>
    rw [Op.run_nextValue_of_isEnd hend]
    exact .ended hend
  | false =>
    rw [Op.run_nextValue_of_not_isEnd hend, Op.run_bind, Op.readScan, Op.run_insist,
      Op.run_inspect_eq]
    obtain ⟨e, he, hun⟩ | ⟨r, items, hv, -⟩ := h.sound.inspect_shared_cases (.soft (.scan i))
    · rw [scanned_eq_error he]
      refine .failed e hend hun ?_
      rintro rfl
      cases hun with
      | null hnone =>
        obtain ⟨r, hr⟩ := h.exists_referent hend
        cases hnone.symm.trans hr
    · obtain ⟨item, hitem, hread⟩ := h.scanned_here hend hv
      rw [hread]
      exact .element r items item hend hv hitem

/-! ### Every run -/

/-- Scan `i` of `v` is that of `w`, `n` elements further in its range. -/
structure Further (w v : World) (i n : Nat) : Prop where
  there : i < v.scans.size
  array : (v.scan i).array = (w.scan i).array
  length : (v.scan i).position.length = (w.scan i).position.length
  index : (v.scan i).position.index.toNat = (w.scan i).position.index.toNat + n

theorem Further.trans (h : u.Further v i m) (k : v.Further w i n) : u.Further w i (m + n) where
  there := k.there
  array := k.array.trans h.array
  length := k.length.trans h.length
  index := by rw [k.index, h.index, Nat.add_assoc]

theorem further_of_scans (hi : i < w.scans.size) (hv : v.scans[i]? = w.scans[i]?) :
    w.Further v i 0 := by
  have hscan : v.scan i = w.scan i := by rw [scan, hv, scan]
  rw [Array.getElem?_eq_getElem hi] at hv
  exact ⟨(Array.getElem?_eq_some_iff.mp hv).1, by rw [hscan], by rw [hscan], by rw [hscan,
    Nat.add_zero]⟩

theorem further_next (hi : i < w.scans.size) (hend : (w.scan i).position.isEnd = false) :
    w.Further (w.moveScan i .next) i 1 := by
  have hlt := Position.isEnd_eq_false_iff.mp hend
  refine ⟨by simpa [moveScan] using hi, ?_, ?_, ?_⟩ <;> rw [scan_moveScan]
  · exact Position.length_next _
  · apply (Position.index_next _).trans
    omega

/-- What happens while a scan is used up: it is asked for the next element, or something is done
elsewhere. -/
inductive Turn where
  | ask
  | other (a : Action)

namespace Turn

def run (i : Nat) (w : World) : Turn → World
  | .ask => ((Op.nextValue i).run.run w).2
  | .other a => a.run w

/-- The element that comes of a turn, if one does. -/
def gives (i : Nat) (w : World) : Turn → List Item
  | .ask => match ((Op.nextValue i).run.run w).1 with
    | .ok item => item.toList
    | .error _ => []
  | .other _ => []

/-- What is done elsewhere leaves scan `i` alone. -/
def Leaves (i : Nat) : Turn → Prop
  | .ask => True
  | .other a => World.Leaves i a

end Turn

/-- The elements that come of a run, in order. -/
def given (i : Nat) : World → List Turn → List Item
  | _, [] => []
  | w, t :: ts => t.gives i w ++ given i (t.run i w) ts

theorem reaches_turn (w : World) (i : Nat) (t : Turn) : w.Reaches (t.run i w) := by
  cases t with
  | ask => exact Act.lawful _ w
  | other a => exact .once a

/-- One turn takes a scan one element further if it gives one, and else nowhere. -/
theorem Reachable.further_turn (h : w.Reachable) (hi : i < w.scans.size) {t : Turn}
    (ht : t.Leaves i) : w.Further (t.run i w) i (t.gives i w).length := by
  cases t with
  | ask =>
    have hyields := h.yields i
    rw [Turn.run, Turn.gives]
    generalize (Op.nextValue i).run.run w = o at hyields
    cases hyields with
    | ended => exact further_of_scans hi rfl
    | element r items item hend => exact further_next hi hend
    | failed e => exact further_of_scans hi (congrArg (·[i]?) (scans_of_hands (hands_raise _)))
  | other a =>
    apply further_of_scans hi
    rw [Array.getElem?_eq_getElem hi]
    exact scans_run_of_leaves ht (Array.getElem?_eq_getElem hi)

theorem Reachable.further_turns (h : w.Reachable) (hi : i < w.scans.size) {ts : List Turn}
    (hts : ∀ t ∈ ts, t.Leaves i) :
    (ts.foldl (Turn.run i) w).Reachable ∧
      w.Further (ts.foldl (Turn.run i) w) i (given i w ts).length := by
  induction ts generalizing w with
  | nil => exact ⟨h, further_of_scans hi rfl⟩
  | cons t ts ih =>
    obtain ⟨ht, hts⟩ := List.forall_mem_cons.mp hts
    have hfurther := h.further_turn hi ht
    obtain ⟨hreach, hrest⟩ := ih (h.reaches (w.reaches_turn i t)) hfurther.there hts
    refine ⟨hreach, ?_⟩
    rw [given, List.length_append]
    exact hfurther.trans hrest

theorem Reachable.gives_cases (h : w.Reachable) (i : Nat) (t : Turn) :
    t.gives i w = [] ∨ t = .ask ∧ ∃ r items item, t.gives i w = [item] ∧
      w.inspect (.soft (.scan i)) .shared = .ok (r, items) ∧
      items[(w.scan i).position.index.toNat]? = some item := by
  cases t with
  | ask =>
    have hyields := h.yields i
    rw [Turn.gives]
    generalize (Op.nextValue i).run.run w = o at hyields
    cases hyields with
    | ended | failed => exact .inl rfl
    | element r items item hend hv hitem => exact .inr ⟨rfl, r, items, item, rfl, hv, hitem⟩
  | other a => exact .inl rfl

/-- The elements come in order, and each is what was seen of the range when it was asked for. -/
theorem Reachable.given_current (h : w.Reachable) (hi : i < w.scans.size) {ts : List Turn}
    (hts : ∀ t ∈ ts, t.Leaves i) {k : Nat} {item : Item} (hk : (given i w ts)[k]? = some item) :
    ∃ before after r items, ts = before ++ .ask :: after ∧
      (before.foldl (Turn.run i) w).inspect (.soft (.scan i)) .shared = .ok (r, items) ∧
      items[(w.scan i).position.index.toNat + k]? = some item := by
  induction ts generalizing w k with
  | nil => cases hk
  | cons t ts ih =>
    obtain ⟨ht, hts⟩ := List.forall_mem_cons.mp hts
    have hfurther := h.further_turn hi ht
    have hrest (j : Nat) (hj : (given i (t.run i w) ts)[j]? = some item)
        (hkj : k = (t.gives i w).length + j) :
        ∃ before after r items, t :: ts = before ++ .ask :: after ∧
          (before.foldl (Turn.run i) w).inspect (.soft (.scan i)) .shared = .ok (r, items) ∧
          items[(w.scan i).position.index.toNat + k]? = some item := by
      obtain ⟨before, after, r, items, rfl, hv, hitem⟩ :=
        ih (h.reaches (w.reaches_turn i t)) hfurther.there hts hj
      rw [hfurther.index, Nat.add_assoc, ← hkj] at hitem
      exact ⟨t :: before, after, r, items, rfl, hv, hitem⟩
    rw [given] at hk
    -- the element comes of the first turn, or of the rest, where the index is further by what came
    obtain hnone | ⟨rfl, r, items, first, hfirst, hv, hitem⟩ := h.gives_cases i t
    · rw [hnone] at hk hrest
      exact hrest k hk (Nat.zero_add k).symm
    · rw [hfirst] at hk hrest
      cases k with
      | zero =>
        obtain rfl := Option.some.inj hk
        exact ⟨[], ts, r, items, rfl, hv, hitem⟩
      | succ k => exact hrest k hk (Nat.add_comm k 1)

/-- What a run comes to in which scan `i` is used up, and everything else may happen. -/
structure UsedUp (w : World) (i : Nat) (ts : List Turn) : Prop where
  inBounds : (ts.foldl (Turn.run i) w).InBounds i
  /-- Only the elements that it gives move it; to fail does not. -/
  further : w.Further (ts.foldl (Turn.run i) w) i (given i w ts).length
  remaining : (given i w ts).length + ((ts.foldl (Turn.run i) w).scan i).position.remaining =
    (w.scan i).position.remaining
  current : ∀ (k : Nat) (item : Item), (given i w ts)[k]? = some item →
    ∃ before after r items, ts = before ++ .ask :: after ∧
      (before.foldl (Turn.run i) w).inspect (.soft (.scan i)) .shared = .ok (r, items) ∧
      items[(w.scan i).position.index.toNat + k]? = some item
  next : (ts.foldl (Turn.run i) w).Yields i ((Op.nextValue i).run.run (ts.foldl (Turn.run i) w))
  /-- What was at the end stays there. -/
  ended : (w.scan i).position.isEnd = true → given i w ts = [] ∧
    (Op.nextValue i).run.run (ts.foldl (Turn.run i) w) = (.ok none, ts.foldl (Turn.run i) w)

theorem Yields.of_isEnd {o : Except Fault (Option Item) × World} (h : w.Yields i o)
    (hend : (w.scan i).position.isEnd = true) : o = (.ok none, w) := by
  cases h with
  | ended => rfl
  | element _ _ _ hnot | failed _ hnot => simp [hend] at hnot

theorem Reachable.usedUp (h : w.Reachable) (hi : i < w.scans.size) {ts : List Turn}
    (hts : ∀ t ∈ ts, t.Leaves i) : w.UsedUp i ts := by
  obtain ⟨hreach, hfurther⟩ := h.further_turns hi hts
  have hle := ((ts.foldl (Turn.run i) w).scan i).position.index_le
  have hindex := hfurther.index
  rw [hfurther.length] at hle
  have hremaining : (given i w ts).length + ((ts.foldl (Turn.run i) w).scan i).position.remaining =
      (w.scan i).position.remaining := by
    rw [Position.remaining, Position.remaining, hfurther.length]
    omega
  refine ⟨hreach.inBounds i, hfurther, hremaining, fun k item => h.given_current hi hts,
    hreach.yields i, fun hend => ?_⟩
  have hend := Position.isEnd_iff.mp hend
  refine ⟨List.length_eq_zero_iff.mp (by omega),
    (hreach.yields i).of_isEnd (Position.isEnd_iff.mpr ?_)⟩
  rw [hfurther.length]
  omega

/-- In every reachable world no scan comes to an index outside of what it sees: it measures against
the length of its handle, each view of its range has that length, and to check it fails exactly
where the range cannot be read. And through every run in which a scan is used up, while its
range is written, lent, destroyed, replaced or left, the elements that it gives and those that it
says remain are as many as remained; they come in order, each as it is when it is asked for; then
come none; and where the range cannot be read before that, it fails and does not move. -/
theorem scans_in_bounds (h : w.Reachable) :
    (∀ i, w.InBounds i) ∧
    ∀ i (ts : List Turn), i < w.scans.size → (∀ t ∈ ts, t.Leaves i) → w.UsedUp i ts :=
  ⟨h.inBounds, fun _ _ hi hts => h.usedUp hi hts⟩

/-- An array that is destroyed after one of the two elements of a scan. -/
theorem scans_in_bounds_scannedInts :
    given 0 scannedInts [.ask, .other (.resetOwner 0)] = [.int 1] ∧
      (([Turn.ask, .other (.resetOwner 0)].foldl (Turn.run 0) scannedInts).scan
        0).position.remaining = 1 ∧
      ((Op.nextValue 0).run.run
        ([Turn.ask, .other (.resetOwner 0)].foldl (Turn.run 0) scannedInts)).1 =
        .error (.panicked (.fatal (.access .gone))) := by
  have hused := (scans_in_bounds (w := scannedInts) (reachable_foldl _ _)).2 0
    [.ask, .other (.resetOwner 0)] (by decide) (by simp [Turn.Leaves, Leaves])
  have hgiven : given 0 scannedInts [.ask, .other (.resetOwner 0)] = [.int 1] := by decide
  have hremaining := hused.remaining
  rw [hgiven] at hremaining
  exact ⟨hgiven, Nat.add_left_cancel hremaining, by decide⟩

end World

end Custody

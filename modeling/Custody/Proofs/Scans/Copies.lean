import Custody.Proofs.Scans.Following

/-! Copies of scans, and the elements that come of them. A new scan takes one registration; if
that is refused, nothing else is done and the program panics. A scan that is used up gives
the elements from its position on, one by one. -/

namespace Custody

variable {α β : Type}

/-- `n` steps of a run through a list: each takes an element off, if there is one, and says how
many are left. -/
def draw : Nat → List β → List (Option β × Nat)
  | 0, _ => []
  | n + 1, xs => (xs.head?, xs.tail.length) :: draw n xs.tail

/-- `n` elements of a scan that is used up, each with how many remain after it. -/
def Op.nextValues (i : Nat) : Nat → Op (List (Option Item × Nat))
  | 0 => return []
  | n + 1 => do
    let item ← Op.nextValue i
    let left ← Op.look fun w => (w.scan i).position.remaining
    return (item, left) :: (← Op.nextValues i n)

namespace Spot

variable {p : Spot α}

theorem values_of_isEnd (hp : p.position.length.toNat = p.slice.items.length)
    (h : p.position.isEnd = true) : p.values = [] := by
  rw [values, List.drop_eq_nil_iff, ← hp, Position.isEnd_iff.mp h]

/-- Before the end there is an element, and it is the first of those from there on. -/
theorem values_of_not_isEnd (hp : p.position.length.toNat = p.slice.items.length)
    (h : p.position.isEnd = false) :
    ∃ a, p.get = .ok a ∧ p.values = a :: (p.move .next).values := by
  have hlt := Position.isEnd_eq_false_iff.mp h
  have hin : p.position.index.toNat < p.slice.items.length := hp ▸ hlt
  have hnext : (p.move .next).position.index.toNat = p.position.index.toNat + 1 := by
    apply (Position.index_next _).trans
    omega
  refine ⟨p.slice.items[p.position.index.toNat], ?_, ?_⟩
  · rw [get, Position.here, if_pos (UInt64.lt_iff_toNat_lt.mpr hlt)]
    change p.element p.position.index = _
    rw [element, List.getElem?_eq_getElem hin]
  · rw [values, values, hnext, slice_move]
    exact List.drop_eq_getElem_cons hin

theorem values_next (hp : p.position.length.toNat = p.slice.items.length) :
    (p.move .next).values = p.values.tail := by
  cases h : p.position.isEnd with
  | true =>
    have hmove : p.move .next = p := by rw [move, Position.move, Position.next_of_isEnd h]
    rw [hmove, values_of_isEnd hp h, List.tail_nil]
  | false =>
    obtain ⟨a, -, ha⟩ := values_of_not_isEnd hp h
    rw [ha, List.tail_cons]

end Spot

namespace World

variable {v w : World} {i : Nat} {r : RecordId} {e : HeapRefusal}

/-- Objects, guards and scans of `w` are in `v` as they were; `v` may have more scans. -/
structure Spreads (w v : World) : Prop where
  alike : w.Alike v
  calm : v.IsCalm
  scans : ∀ (i : Nat) (c : Scan), w.scans[i]? = some c → v.scans[i]? = some c

theorem Follows.spreads {f : α → Item} {p : Spot α} (h : w.Follows f r i p) (hv : w.Spreads v) :
    v.Follows f r i p := by
  obtain ⟨k, -, hk⟩ := h.scan
  exact h.congr hv.alike ((hv.scans i _ hk).trans hk.symm)

/-- A position in a slice is the one at its index. -/
theorem Follows.place_eq {f : α → Item} {p : Spot α} (h : w.Follows f r i p) :
    Spot.place p.slice p.position.index = p := by
  have hlength : p.slice.length = p.position.length := by
    rw [Slice.length, ← h.length, UInt64.ofNat_toNat]
  rw [Spot.place, hlength, Position.clamped_self]

/-- Why a scan cannot be copied, if it cannot: there is no slot for the copy of its handle. -/
def copyRefusal? (w : World) (i : Nat) : Option HeapRefusal :=
  (w.scan i).array.bind fun k => w.refusal? k.record

theorem Follows.copyRefusal? {f : α → Item} {p : Spot α} (h : w.Follows f r i p) :
    w.copyRefusal? i = w.refusal? r := by
  obtain ⟨k, rfl, hk⟩ := h.array
  rw [World.copyRefusal?, hk, Option.bind_some]

theorem watch_of_refusal (h : w.refusal? r = some e) : w.watch r = (.error e, w) := by
  obtain ⟨rec, hr, hrec⟩ := Option.bind_eq_some_iff.mp h
  split_ifs at hrec with hh
  split at hrec
  · rename_i e' he
    rw [watch, hr]
    simp only [hh, he, if_false, Option.some.inj hrec]
  · cases hrec

/-- A registration is refused only for want of a slot. -/
theorem slotsExhausted_of_refusal (h : w.refusal? r = some e) : ∃ n, e = .slotsExhausted n := by
  obtain ⟨rec, hr, hrec⟩ := Option.bind_eq_some_iff.mp h
  split_ifs at hrec
  split at hrec
  · rename_i e' he
    obtain rfl := Option.some.inj hrec
    unfold Record.nextTicket at he
    split_ifs at he
    cases ht : rec.slots.nextTicket with
    | ok k => simp [ht, Except.map] at he
    | error e =>
      obtain rfl : e = e' := by simpa [ht, Except.map] using he
      exact SlotTable.slotsExhausted_of_nextTicket ht
  · cases hrec

end World

namespace Op

open World

variable {v w : World} {f : α → Item} {p : Spot α} {i j : Nat} {r : RecordId} {e : HeapRefusal}
  {k : Watch} {sl : Slice α}

/-! ### Opening and copying -/

theorem denials_openScan (k : Watch) (ix : UInt64) (w : World) :
    (openScan (some k) ix).denials w = (w.refusal? k.record).toList := by
  have hnew : (Act.newScan (some k.record) ix).denials w = (w.refusal? k.record).toList :=
    List.append_nil _
  have hheap (x : Except HeapRefusal Nat) (v : World) : (heap x).denials v = [] := by
    cases x <;> rfl
  rw [openScan, denials_insist, granted, denials_bind, denials_lift]
  dsimp only [Option.map_some]
  rw [hnew, run_lift]
  dsimp only
  rw [hheap, List.append_nil]

/-- A scan that cannot be registered is fatal. -/
theorem run_openScan_of_refusal (he : w.refusal? k.record = some e) (ix : UInt64) :
    (openScan (some k) ix).run.run w =
      (.error (.panicked (.fatal (.heap e))), w.raise (.fatal (.heap e))) := by
  have hnew : w.newScan (some k.record) ix = (.error e, w) := by rw [newScan, watch_of_refusal he]
  have hrun : (granted (Act.newScan ((some k).map Watch.record) ix)).run.run w =
      (heap (w.newScan (some k.record) ix).1).run.run (w.newScan (some k.record) ix).2 := rfl
  rw [openScan, run_insist, hrun, hnew]
  rfl

/-- A new scan follows a new position in a slice of the same elements. -/
theorem attains_openScan (h : w.Reachable) (hc : w.IsCalm)
    (hopen : w.open? k.record .shared = .ok (sl.items.map f)) (ix : UInt64) :
    (openScan (some k) ix).Attains w fun i v =>
      i = w.scans.size ∧ w.Spreads v ∧ v.Follows f k.record i (.place sl ix) := by
  let scan (k : Watch) (v : World) : Scan := ⟨some k, v.positionIn (some k) ix⟩
  refine (@attains_registering _ _ _ _ (fun v => v.scans.size)
    (fun k v => { v with scans := v.scans.push (scan k v) }) h hc (open?_eq_ok hopen).1 ?_ ?_
    (List.append_nil _)).mono ?_
  · intro e hw
    simp only [Act.newScan, Act.does, newScan, Option.map_some, hw]
  · intro l v hw
    simp only [Act.newScan, Act.does, newScan, Option.map_some, hw, scan]
  · rintro i v hreach ⟨l, u, hl, halike, hcalm, hhands, rfl, rfl⟩
    have hscans := scans_of_hands hhands
    have halike : w.Alike { u with scans := u.scans.push (scan l u) } :=
      ⟨halike.face, halike.guards⟩
    refine ⟨by rw [hscans], ⟨halike, ⟨hcalm.pending, hcalm.unwinding⟩, fun n c hn => ?_⟩, ?_⟩
    · exact getElem?_push_of_some (hscans ▸ hn)
    · rw [← hl] at hopen ⊢
      exact (h.reaches hreach).follows_place ((halike.open? _ _).trans hopen)
        Array.getElem?_push_size

theorem run_copyScan (i : Nat) (w : World) :
    (copyScan i).run.run w = (openScan (w.scan i).array (w.scan i).position.index).run.run w := rfl

theorem denials_copyScan (i : Nat) (w : World) :
    (copyScan i).denials w = (openScan (w.scan i).array (w.scan i).position.index).denials w := rfl

theorem attains_copyScan (h : w.Reachable) (hc : w.IsCalm) (hi : w.Follows f r i p) :
    (copyScan i).Attains w fun j v => j = w.scans.size ∧ w.Spreads v ∧ v.Follows f r j p := by
  obtain ⟨k, rfl, hk⟩ := hi.array
  have hopen := attains_openScan h hc hi.holds p.position.index
  rw [hi.place_eq] at hopen
  rw [Attains, run_copyScan, denials_copyScan, hk, hi.position]
  exact hopen

theorem run_copyScan_of_granted (h : w.Reachable) (hc : w.IsCalm) (hi : w.Follows f r i p)
    (hr : w.refusal? r = none) :
    ∃ v, (copyScan i).run.run w = (.ok w.scans.size, v) ∧ w.Spreads v ∧
      v.Follows f r w.scans.size p := by
  have hd : (copyScan i).denials w = [] := by
    obtain ⟨k, rfl, hk⟩ := hi.array
    rw [denials_copyScan, hk, denials_openScan, hr, Option.toList_none]
  obtain ⟨_, v, hrun, rfl, hv⟩ := (attains_copyScan h hc hi).ok hd
  exact ⟨v, hrun, hv⟩

theorem run_copyScan_of_refusal (hi : w.Follows f r i p) (he : w.refusal? r = some e) :
    (copyScan i).run.run w =
      (.error (.panicked (.fatal (.heap e))), w.raise (.fatal (.heap e))) := by
  obtain ⟨k, rfl, hk⟩ := hi.array
  rw [run_copyScan, hk, run_openScan_of_refusal he]

/-! ### Elements one by one -/

theorem run_readScan (h : w.Sound) (hi : w.Follows f r i p) (m : Manner) {a : α}
    (ha : p.get = .ok a) : (readScan m i .here).run.run w = (.ok (f a), w) := by
  have hread : (inspect (·.scanned i .here)).run.run w = (.ok (f a), w) := by
    apply run_inspect
    rw [hi.scanned h, Spot.seen, ha]
    rfl
  cases m with
  | attempt => exact hread
  | insist => rw [readScan, run_insist, hread]

theorem run_nextValue_of_isEnd (hend : (w.scan i).position.isEnd = true) :
    (nextValue i).run.run w = (.ok none, w) := by
  change (if (w.scan i).position.isEnd then pure none else _ : Op (Option Item)).run.run w = _
  rw [if_pos hend]
  rfl

theorem run_nextValue_of_not_isEnd (hend : (w.scan i).position.isEnd = false) :
    (nextValue i).run.run w = (do
      let item ← readScan .insist i .here
      moveScan i .next
      return some item : Op (Option Item)).run.run w := by
  change (if (w.scan i).position.isEnd then pure none else _ : Op (Option Item)).run.run w = _
  rw [if_neg (Bool.eq_false_iff.mp hend)]

/-- The first element is taken off, if there is one. -/
theorem run_nextValue (h : w.Sound) (hi : w.Follows f r i p) :
    ∃ v, (nextValue i).run.run w = (.ok (p.values.map f).head?, v) ∧
      v.Follows f r i (p.move .next) := by
  cases hend : p.position.isEnd with
  | true =>
    have hmove : p.move .next = p := by rw [Spot.move, Position.move, Position.next_of_isEnd hend]
    rw [Spot.values_of_isEnd hi.length hend, hmove,
      run_nextValue_of_isEnd (by rw [hi.position, hend])]
    exact ⟨w, rfl, hi⟩
  | false =>
    obtain ⟨a, ha, hvalues⟩ := Spot.values_of_not_isEnd hi.length hend
    refine ⟨w.moveScan i .next, ?_, hi.moveScan .next⟩
    rw [run_nextValue_of_not_isEnd (by rw [hi.position, hend]), run_bind,
      run_readScan h hi .insist ha, hvalues]
    rfl

/-- A scan that is used up gives what a run through the list of its elements gives. -/
theorem run_nextValues (h : w.Reachable) (hi : w.Follows f r i p) (n : Nat) :
    ∃ v, (nextValues i n).run.run w = (.ok (draw n (p.values.map f)), v) := by
  induction n generalizing w p with
  | zero => exact ⟨w, rfl⟩
  | succ n ih =>
    obtain ⟨v, hrun, hv⟩ := run_nextValue h.sound hi
    have hvalues := Spot.values_next hi.length
    have hleft : (v.scan i).position.remaining = (p.values.map f).tail.length := by
      rw [hv.position, hv.remaining, hvalues, List.length_tail, List.length_tail, List.length_map]
    obtain ⟨u, hrest⟩ := ih (h.reaches (reaches_of_run hrun)) hv
    rw [hvalues, List.map_tail] at hrest
    refine ⟨u, ?_⟩
    rw [nextValues, run_bind, hrun]
    dsimp only
    rw [run_bind, run_look]
    dsimp only
    rw [run_bind, hrest, hleft]
    rfl

/-! ### All elements -/

/-- A clean-up in which nothing gives up keeps the result. -/
theorem run_thenClean {u : World} {a : Op β} {c : Act Unit} {x : β} (ha : a.run.run w = (.ok x, v))
    (hc : quiesce.run.run (c.run v).2 = (.ok (), u)) : (thenClean a c).run.run w = (.ok x, u) := by
  rw [thenClean, run_bind, run_lift, ha]
  dsimp only
  rw [run_bind, run_lift]
  dsimp only
  rw [run_bind, hc]
  rfl

theorem run_thenClean_of_ok {a : Op β} {c : Act Unit} {x : β} (ha : a.run.run w = (.ok x, v))
    (hc : (c.run v).2.IsCalm) : (thenClean a c).run.run w = (.ok x, (c.run v).2) := by
  have hdrain : (c.run v).2.drain = (c.run v).2 := drain_of_iterate (n := 0) hc.pending
  exact run_thenClean ha (by rw [run_quiesce, hdrain, hc.unwinding])

/-- All elements from a scan on, and their number, if the handle could be copied. -/
theorem run_values (h : w.Reachable) (hc : w.IsCalm) (hi : w.Follows f r i p)
    (hr : w.refusal? r = none) :
    ∃ v, (values i).run.run w = (.ok (p.values.length, p.values.map f), v) := by
  obtain ⟨v, hcopy, hspread, hj⟩ := run_copyScan_of_granted h hc hi hr
  have hv : v.Reachable := h.reaches (reaches_of_run hcopy)
  let body (n : Nat) : Op (Nat × List Item) :=
    if n = 0 then return (0, [])
    else return (n, ← inManner .insist (inspect (·.elementsFrom w.scans.size)))
  have hbody : (body p.values.length).run.run v = (.ok (p.values.length, p.values.map f), v) := by
    by_cases hn : p.values.length = 0
    · rw [List.length_eq_zero_iff.mp hn]
      rfl
    · rw [show body p.values.length = _ from if_neg hn, run_bind, run_insist,
        run_inspect (hj.elementsFrom hv.sound)]
      rfl
  -- the copy goes away again
  have hcalm : (v.discardSoft (.scan w.scans.size)).drain.IsCalm := by
    obtain ⟨k, rfl, hk⟩ := hj.scan
    have hsoft : v.soft (.scan w.scans.size) = some k := by
      rw [soft, soft?, hk]
      rfl
    have hlent : v.isLent (.soft (.scan w.scans.size)) = false := by
      rw [hspread.alike.isLent]
      apply h.tended.not_isLent
      simp [soft?]
    refine (hv.drain_discardSoft hspread.calm hlent fun l hl => ?_).2.1
    obtain rfl : k = l := Option.some.inj (hsoft.symm.trans hl)
    exact hj.isAlive
  refine ⟨(v.discardSoft (.scan w.scans.size)).drain, ?_⟩
  rw [values, run_bind, hcopy]
  dsimp only
  rw [run_bind, run_look]
  dsimp only
  rw [hj.position, hj.remaining]
  exact run_thenClean_of_ok hbody hcalm

end Op

end Custody

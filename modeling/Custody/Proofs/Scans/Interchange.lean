import Custody.Proofs.Scans.Comparing
import Custody.Proofs.Scans.Copies

/-! Positions in slices and scans of arrays and rows are interchangeable. A program that
places, copies and moves positions is run twice: on slices, and on handles whose ranges hold
the same elements. After every run the positions made in the same order show the same, and
compare the same in one range. In two ranges the scans always refuse; so do the positions in
slices, if a slice takes up memory, since an address and a length tell such slices apart. -/

namespace Custody

variable {ρ α : Type}

/-- What is done with positions. A range has a name; positions are numbered in the order in
which they were made. -/
inductive Errand (ρ : Type) where
  | place (range : ρ) (ix : UInt64)
  | copy (a : Nat)
  | move (a : Nat) (m : Position.Move)

namespace Errand

/-- On slices. -/
def onSpots (slice : ρ → Slice α) (ps : List (Spot α)) : Errand ρ → List (Spot α)
  | .place x ix => ps ++ [.place (slice x) ix]
  | .copy a => ps ++ ps[a]?.toList
  | .move a m => ps.modify a (·.move m)

/-- On arrays and rows, through handles. -/
def onScans (handle : ρ → Watch) (is : List Nat) : Errand ρ → Op (List Nat)
  | .place x ix => do return is ++ [← Op.openScan (some (handle x)) ix]
  | .copy a =>
    match is[a]? with
    | some i => do return is ++ [← Op.copyScan i]
    | none => return is
  | .move a m =>
    match is[a]? with
    | some i => do
      Op.moveScan i m
      return is
    | none => return is

def spots (slice : ρ → Slice α) (cs : List (Errand ρ)) : List (Spot α) :=
  cs.foldl (onSpots slice) []

def scans (handle : ρ → Watch) (cs : List (Errand ρ)) : Op (List Nat) :=
  cs.foldlM (onScans handle) []

end Errand

namespace Spot

variable {p q : Spot α}

/-- Two positions compare by their indices. -/
structure ComparesByIndex (p q : Spot α) : Prop where
  distance : ∃ d, p.distance q = .ok d ∧
    d.toInt = p.position.index.toNat - q.position.index.toNat
  same : p.same q = .ok (decide (p.position.index = q.position.index))
  order : p.order q = .ok (compare p.position.index.toNat q.position.index.toNat)

/-- Two positions that cannot be compared: each answer is a refusal. -/
structure Unrelated (p q : Spot α) : Prop where
  distance : p.distance q = .error (.refused (.access .unrelated))
  same : p.same q = .error .unrelated
  order : p.order q = .error .unrelated

theorem unrelated_of_not_same (h : ¬ p.slice.same q.slice = true) : p.Unrelated q := by
  have hcomparable := comparable_of_not_same h
  refine ⟨?_, ?_, ?_⟩
  · rw [distance, hcomparable]
  · rw [same, hcomparable]
    rfl
  · rw [order, hcomparable]
    rfl

end Spot

namespace World

variable {f : α → Item} {size : Nat} {handle : ρ → Watch} {slice : ρ → Slice α} {v w : World}
  {is js : List Nat} {ps : List (Spot α)} {p q : Spot α} {i j a : Nat} {r : RecordId}

/-- Each range can be read through its handle, and holds what its slice holds. One slice stands for
each object, and slices that stand for two objects do not have the same bytes, unless they have
none; the elements of a slice have `size` bytes each. -/
structure Mirrors (w : World) (f : α → Item) (size : Nat) (handle : ρ → Watch)
    (slice : ρ → Slice α) : Prop where
  readable : ∀ x, w.open? (handle x).record .shared = .ok ((slice x).items.map f)
  short : ∀ x, (slice x).items.length ≤ Int64.maxValue.toInt
  one : ∀ x y, (handle x).record = (handle y).record → (slice x).same (slice y) = true
  two : ∀ x y, (handle x).record ≠ (handle y).record → (slice x).SameBytes size (slice y) →
    size * (slice x).items.length = 0

/-- What a scan shows is what a position in a slice shows. To take the elements by
`copyScan` or `values` the handle must be copied, which is fatal if there is no slot. -/
structure Shows (w : World) (f : α → Item) (i : Nat) (p : Spot α) : Prop where
  index : (w.scan i).position.index = p.position.index
  isEnd : (w.scan i).position.isEnd = p.position.isEnd
  get : w.scanned i .here = p.get.map f
  away : ∀ n, w.scanned i (.away n) = (p.away n).map f
  used : ∀ n, ∃ v, (Op.nextValues i n).run.run w = (.ok (draw n (p.values.map f)), v)
  copied : w.copyRefusal? i = none → ∀ n, ∃ v,
    (Op.copyScan i >>= fun j => Op.nextValues j n).run.run w = (.ok (draw n (p.values.map f)), v)
  values : w.copyRefusal? i = none → ∃ v,
    (Op.values i).run.run w = (.ok (p.values.length, p.values.map f), v)
  refused : ∀ e, w.copyRefusal? i = some e → (∃ n, e = .slotsExhausted n) ∧
    (∃ v, (Op.copyScan i).run.run w = (.error (.panicked (.fatal (.heap e))), v)) ∧
    ∃ v, (Op.values i).run.run w = (.error (.panicked (.fatal (.heap e))), v)

/-- Two scans answer as two positions in slices do. -/
structure ComparesAs (w : World) (i j : Nat) (p q : Spot α) : Prop where
  distance : (w.scan i).distance (w.scan j) = p.distance q
  same : (w.scan i).same (w.scan j) = p.same q
  order : (w.scan i).order (w.scan j) = p.order q
  order? : (w.scan i).order? (w.scan j) = (p.order q).map some

def OneRange (w : World) (i j : Nat) : Prop :=
  (w.scan i).array.map Watch.record = (w.scan j).array.map Watch.record

/-- Two scans of one range compare as two positions in slices do, and by their indices. Two scans
of different ranges refuse, and so do the positions, if either slice takes up memory. Positions in
slices that take up none compare or refuse as the address and the length of these have it. -/
structure Compares (w : World) (size i j : Nat) (p q : Spot α) : Prop where
  inRange : w.OneRange i j → w.ComparesAs i j p q
  oneSlice : w.OneRange i j → p.slice.same q.slice = true
  byIndex : p.slice.same q.slice = true → p.ComparesByIndex q
  apart : ¬ w.OneRange i j → w.Unrelated i j
  occupied : ¬ w.OneRange i j →
    0 < size * p.slice.items.length ∨ 0 < size * q.slice.items.length → p.Unrelated q
  twoSlices : ¬ p.slice.same q.slice = true → p.Unrelated q

/-! ### One position and two -/

theorem Follows.shows (h : w.Reachable) (hc : w.IsCalm) (hi : w.Follows f r i p) :
    w.Shows f i p where
  index := congrArg Position.index hi.position
  isEnd := congrArg Position.isEnd hi.position
  get := hi.scanned h.sound .here
  away n := hi.scanned h.sound (.away n)
  used := Op.run_nextValues h hi
  copied hr n := by
    rw [hi.copyRefusal?] at hr
    obtain ⟨v, hcopy, -, hj⟩ := Op.run_copyScan_of_granted h hc hi hr
    rw [Op.run_bind, hcopy]
    exact Op.run_nextValues (h.reaches (Op.reaches_of_run hcopy)) hj n
  values hr := Op.run_values h hc hi (hi.copyRefusal?.symm.trans hr)
  refused e he := by
    rw [hi.copyRefusal?] at he
    have hcopy := Op.run_copyScan_of_refusal hi he
    refine ⟨slotsExhausted_of_refusal he, ⟨_, hcopy⟩, w.raise (.fatal (.heap e)), ?_⟩
    rw [Op.values, Op.run_bind, hcopy]

theorem Follows.oneRange_iff {s : RecordId} (hi : w.Follows f r i p) (hj : w.Follows f s j q) :
    w.OneRange i j ↔ r = s := by
  obtain ⟨k, rfl, hk⟩ := hi.array
  obtain ⟨l, rfl, hl⟩ := hj.array
  rw [OneRange, hk, hl]
  exact Option.some_inj

theorem Follows.comparesAs {s : RecordId} (hi : w.Follows f r i p) (hj : w.Follows f s j q)
    (hrs : p.slice.same q.slice = true ↔ r = s) : w.ComparesAs i j p q where
  distance := hi.distance hj hrs
  same := hi.same hj hrs
  order := hi.order hj hrs
  order? := by
    rw [Scan.order?, hi.order hj hrs]
    unfold Spot.order Spot.comparable
    split_ifs <;> rfl

theorem Follows.comparesByIndex {s : RecordId} (hi : w.Follows f r i p) (hj : w.Follows f s j q)
    (hsame : p.slice.same q.slice = true) (hp : p.slice.items.length ≤ Int64.maxValue.toInt)
    (hq : q.slice.items.length ≤ Int64.maxValue.toInt) : p.ComparesByIndex q := by
  have hcomparable := Spot.comparable_of_same hsame
  obtain ⟨d, hd, hint⟩ := Position.distance_eq_ok (hi.length ▸ hp) (hj.length ▸ hq)
  refine ⟨⟨d, Spot.distance_of_same hsame hd, hint⟩, ?_, ?_⟩
  · rw [Spot.same, hcomparable]
    rfl
  · rw [Spot.order, hcomparable]
    rfl

theorem Mirrors.compares (hm : w.Mirrors f size handle slice) {x y : ρ}
    (hi : v.Follows f (handle x).record i p) (hj : v.Follows f (handle y).record j q)
    (hp : p.slice = slice x) (hq : q.slice = slice y) : v.Compares size i j p q := by
  have hrange := hi.oneRange_iff hj
  have hsame (h : v.OneRange i j) : p.slice.same q.slice = true := by
    rw [hp, hq]
    exact hm.one x y (hrange.mp h)
  refine
    { inRange := fun h => hi.comparesAs hj (iff_of_true (hsame h) (hrange.mp h))
      oneSlice := hsame
      byIndex := fun h => hi.comparesByIndex hj h (hp ▸ hm.short x) (hq ▸ hm.short y)
      apart := fun h => ?_
      occupied := fun h hbytes => Spot.unrelated_of_not_same fun hone => ?_
      twoSlices := Spot.unrelated_of_not_same }
  · obtain ⟨k, hk, hki⟩ := hi.array
    obtain ⟨l, hl, hlj⟩ := hj.array
    have hfirst : v.IsOf k.record i := congrArg (Option.map Watch.record) hki
    have hsecond : v.IsOf l.record j := congrArg (Option.map Watch.record) hlj
    exact unrelated_of_ne hfirst hsecond (by rw [hk, hl]; exact mt hrange.mpr h)
  · -- slices with the same address and length have the same bytes
    have hnone : size * p.slice.items.length = 0 := by
      have hbytes : p.slice.SameBytes size q.slice := Slice.sameBytes_of_same hone
      rw [hp, hq] at hbytes
      rw [hp]
      exact hm.two x y (mt hrange.mpr h) hbytes
    rw [← (Slice.same_iff.mp hone).2, hnone] at hbytes
    simp at hbytes

/-! ### Runs -/

/-- Scans and positions that were made in the same order follow each other, and no scan is
listed twice. -/
structure Abreast (w : World) (f : α → Item) (handle : ρ → Watch) (slice : ρ → Slice α)
    (is : List Nat) (ps : List (Spot α)) : Prop where
  calm : w.IsCalm
  readable : ∀ x, w.open? (handle x).record .shared = .ok ((slice x).items.map f)
  nodup : is.Nodup
  length : is.length = ps.length
  follows : ∀ (a i : Nat) (p : Spot α), is[a]? = some i → ps[a]? = some p →
    ∃ x, p.slice = slice x ∧ w.Follows f (handle x).record i p

namespace Abreast

theorem exists_spot (h : w.Abreast f handle slice is ps) (hi : is[a]? = some i) :
    ∃ p, ps[a]? = some p := by
  obtain ⟨hlt, -⟩ := List.getElem?_eq_some_iff.mp hi
  exact ⟨_, List.getElem?_eq_getElem (h.length ▸ hlt)⟩

/-- The scans that are listed are there. -/
theorem lt_size (h : w.Abreast f handle slice is ps) (hi : i ∈ is) : i < w.scans.size := by
  obtain ⟨a, ha⟩ := List.getElem?_of_mem hi
  obtain ⟨p, hp⟩ := h.exists_spot ha
  obtain ⟨x, -, hx⟩ := h.follows a i p ha hp
  obtain ⟨k, -, hk⟩ := hx.scan
  exact (Array.getElem?_eq_some_iff.mp hk).1

/-- One more scan, and one more position that it follows. -/
theorem push (h : w.Abreast f handle slice is ps) (hv : w.Spreads v) {x : ρ}
    (hp : p.slice = slice x) (hx : v.Follows f (handle x).record w.scans.size p) :
    v.Abreast f handle slice (is ++ [w.scans.size]) (ps ++ [p]) where
  calm := hv.calm
  readable y := (hv.alike.open? _ _).trans (h.readable y)
  nodup := by
    have hnew : w.scans.size ∉ is := fun hmem => Nat.lt_irrefl _ (h.lt_size hmem)
    exact h.nodup.append (List.nodup_singleton _) (List.disjoint_singleton.mpr hnew)
  length := by rw [List.length_append, List.length_append, h.length, List.length_singleton,
    List.length_singleton]
  follows a i q hi hq := by
    by_cases ha : a < is.length
    · rw [List.getElem?_append_left ha] at hi
      rw [List.getElem?_append_left (h.length ▸ ha)] at hq
      obtain ⟨y, hy, hfollows⟩ := h.follows a i q hi hq
      exact ⟨y, hy, hfollows.spreads hv⟩
    · rw [List.getElem?_append_right (Nat.le_of_not_lt ha)] at hi
      rw [List.getElem?_append_right (h.length ▸ Nat.le_of_not_lt ha), ← h.length] at hq
      cases hz : a - is.length with
      | zero =>
        rw [hz] at hi hq
        obtain rfl := Option.some.inj hi
        obtain rfl := Option.some.inj hq
        exact ⟨x, hp, hx⟩
      | succ n => simp [hz] at hi

/-- A listed scan moves, and the position of its number with it. -/
theorem move (h : w.Abreast f handle slice is ps) (hi : is[a]? = some i) (m : Position.Move) :
    (w.moveScan i m).Abreast f handle slice is (ps.modify a (·.move m)) where
  calm := ⟨h.calm.pending, h.calm.unwinding⟩
  readable := h.readable
  nodup := h.nodup
  length := by rw [List.length_modify, h.length]
  follows b j q hj hq := by
    rw [List.getElem?_modify] at hq
    obtain ⟨p, hp, hpq⟩ := Option.map_eq_some_iff.mp hq
    obtain ⟨x, hx, hfollows⟩ := h.follows b j p hj hp
    by_cases hab : a = b
    · subst hab
      obtain rfl := Option.some.inj (hi.symm.trans hj)
      rw [if_pos rfl] at hpq
      subst hpq
      exact ⟨x, hx, hfollows.moveScan m⟩
    · rw [if_neg hab] at hpq
      subst hpq
      refine ⟨x, hx, hfollows.moveScan_ne m ?_⟩
      rintro rfl
      have hlt := (List.getElem?_eq_some_iff.mp hi).1
      exact hab ((List.getElem?_inj hlt h.nodup).mp (hi.trans hj.symm))

end Abreast

end World

namespace Op

open World

variable {f : α → Item} {handle : ρ → Watch} {slice : ρ → Slice α} {w : World} {is : List Nat}
  {ps : List (Spot α)}

/-- One step keeps scans and positions abreast. -/
theorem attains_errand (h : w.Reachable) (hb : w.Abreast f handle slice is ps) (c : Errand ρ) :
    (c.onScans handle is).Attains w fun js v =>
      v.Abreast f handle slice js (c.onSpots slice ps) := by
  cases c with
  | place x ix =>
    refine (attains_openScan h hb.calm (hb.readable x) ix).bind fun i v _ ⟨hi, hv, hx⟩ => ?_
    subst hi
    exact .of_run rfl (hb.push hv rfl hx)
  | copy a =>
    cases ha : is[a]? with
    | none =>
      have hp : ps[a]? = none :=
        List.getElem?_eq_none_iff.mpr (hb.length ▸ List.getElem?_eq_none_iff.mp ha)
      rw [Errand.onScans, ha, Errand.onSpots, hp, Option.toList_none, List.append_nil]
      exact .of_run rfl hb
    | some i =>
      obtain ⟨p, hp⟩ := hb.exists_spot ha
      obtain ⟨x, hx, hfollows⟩ := hb.follows a i p ha hp
      rw [Errand.onScans, ha, Errand.onSpots, hp, Option.toList_some]
      refine (attains_copyScan h hb.calm hfollows).bind fun j v _ ⟨hj, hv, hfollows⟩ => ?_
      subst hj
      exact .of_run rfl (hb.push hv hx hfollows)
  | move a m =>
    cases ha : is[a]? with
    | none =>
      have hle : ps.length ≤ a := hb.length ▸ List.getElem?_eq_none_iff.mp ha
      rw [Errand.onScans, ha, Errand.onSpots, List.modify_eq_self hle]
      exact .of_run rfl hb
    | some i =>
      rw [Errand.onScans, ha]
      exact .after (run_act (.moveScan i m) w) (.of_run rfl (hb.move ha m))

theorem attains_errands (h : w.Reachable) (hb : w.Abreast f handle slice is ps)
    (cs : List (Errand ρ)) : (cs.foldlM (Errand.onScans handle) is).Attains w fun js v =>
      v.Abreast f handle slice js (cs.foldl (Errand.onSpots slice) ps) := by
  induction cs generalizing w is ps with
  | nil => exact .of_run rfl hb
  | cons c cs ih =>
    rw [List.foldlM_cons]
    exact (attains_errand h hb c).bind fun js v hv hjs => ih (h.reaches hv) hjs

end Op

namespace World

/-- Whatever places, copies and moves there are, in ranges of any elements, at any index and by any
signed words: scans of arrays and rows that can be read show and compare as positions in slices that
hold the same elements, made and moved in the same way. They agree on the index, on the end, on the
element there and on each one away or the refusal, and on the elements from there on and how many
are left. In one range they agree on distance, equality and order. In different ranges scans refuse
to be compared, and so do positions in slices, if one of these takes up memory; if none does, they
refuse just if the slices differ in address or length. What takes a copy of a handle is fatal
instead where the object has no slot for it. -/
theorem positions_interchange {f : α → Item} {size : Nat} {handle : ρ → Watch} {slice : ρ → Slice α}
    {w : World} (h : w.Reachable) (hc : w.IsCalm) (hm : w.Mirrors f size handle slice)
    (cs : List (Errand ρ)) :
    (Errand.scans handle cs).Attains w fun (is : List Nat) v =>
      is.length = (Errand.spots slice cs).length ∧
      (∀ (a i : Nat) (p : Spot α), is[a]? = some i → (Errand.spots slice cs)[a]? = some p →
        v.Shows f i p) ∧
      ∀ (a b i j : Nat) (p q : Spot α), is[a]? = some i → is[b]? = some j →
        (Errand.spots slice cs)[a]? = some p → (Errand.spots slice cs)[b]? = some q →
        v.Compares size i j p q := by
  have hstart : w.Abreast f handle slice [] [] :=
    ⟨hc, hm.readable, List.nodup_nil, rfl, fun a i p hi => absurd hi (by simp)⟩
  refine (Op.attains_errands h hstart cs).mono fun is v hv hb => ⟨hb.length, ?_, ?_⟩
  · intro a i p hi hp
    obtain ⟨x, -, hfollows⟩ := hb.follows a i p hi hp
    exact hfollows.shows (h.reaches hv) hb.calm
  · intro a b i j p q hi hj hp hq
    obtain ⟨x, hx, hpfollows⟩ := hb.follows a i p hi hp
    obtain ⟨y, hy, hqfollows⟩ := hb.follows b j q hj hq
    exact hm.compares hpfollows hqfollows hx hy

/-- An array and a row of the same three elements, and two slices of words that hold them. -/
def arrayAndRow : World :=
  [.construct 0 ⟨.array, .int, .tracked⟩ ⟨3, fun i => .int (Int64.ofNat i), none⟩,
    .construct 0 ⟨.row 3, .int, .tracked⟩ ⟨3, fun i => .int (Int64.ofNat i), none⟩].foldl Action.run
    (start defaultGrant)

def bufferOf (row : Bool) : Slice Int64 := ⟨24 * row.toNat, [0, 1, 2]⟩

/-- One position goes back from the end of the array, and one is left in the row. -/
def backAndForth : List (Errand Bool) :=
  [.place false 9, .move 0 (.retreat 2), .place true 1, .copy 0, .move 2 .next]

theorem positions_arrayAndRow :
    arrayAndRow.Mirrors .int 8 (fun row => ⟨row.toNat, none⟩) bufferOf ∧
    ((Errand.scans (fun row => ⟨row.toNat, none⟩) backAndForth).run.run arrayAndRow).1.isOk = true ∧
    (Errand.scans (fun row => ⟨row.toNat, none⟩) backAndForth).Attains arrayAndRow
      fun (is : List Nat) v =>
      is.length = 3 ∧ ∀ i j p q, is[0]? = some i → is[1]? = some j →
        (Errand.spots bufferOf backAndForth)[0]? = some p →
        (Errand.spots bufferOf backAndForth)[1]? = some q →
        v.Shows .int i p ∧ v.Compares 8 i j p q := by
  have hm : arrayAndRow.Mirrors .int 8 (fun row => ⟨row.toNat, none⟩) bufferOf := by
    refine ⟨by decide, by decide, by decide, fun x y hxy hbytes => ?_⟩
    -- the first byte of either slice is not in the other
    have hfirst := hbytes (24 * x.toNat)
    cases x <;> cases y <;> simp_all [Slice.Covers, bufferOf]
  have hagree := positions_interchange (reachable_foldl _ _) ⟨by decide, by decide⟩ hm backAndForth
  refine ⟨hm, by decide +kernel, hagree.mono ?_⟩
  rintro is v - ⟨hlength, hshows, hcompares⟩
  refine ⟨hlength, ?_⟩
  intro i j p q hi hj hp hq
  exact ⟨hshows 0 i p hi hp, hcompares 0 1 i j p q hi hj hp hq⟩

/-! ### Where they differ -/

/-- An array that as many handles observe as its heap allows, one of them from a scan at its
start. -/
def crowdedArray : World :=
  [.openHeap { Config.standard with cap := 5 },
    .construct 1 ⟨.array, .int, .tracked⟩ ⟨3, fun i => .int (Int64.ofNat i), none⟩,
    .newSoft, .attach 0 (.soft 0), .newSoft, .attach 0 (.soft 1), .newSoft, .attach 0 (.soft 2),
    .newSoft, .attach 0 (.soft 3), .newScan (some 0) 0].foldl Action.run (start defaultGrant)

/-- Two arrays of `n` elements, each with a scan at its start. -/
def twoArrays (e : Element) (n : UInt64) (seed : Seed) : World :=
  [.construct 0 ⟨.array, e, .tracked⟩ ⟨n, fun _ => seed, none⟩,
    .construct 0 ⟨.array, e, .tracked⟩ ⟨n, fun _ => seed, none⟩,
    .newScan (some 0) 0, .newScan (some 1) 0].foldl Action.run (start defaultGrant)

/-- Whether positions in slices refuse to be compared as soon as these have no byte in common and
stand for two objects. -/
def RefuseApart (f : α → Item) (size : Nat) : Prop :=
  ∀ (w : World) (r s : RecordId) (i j : Nat) (p q : Spot α), w.Reachable → w.IsCalm →
    w.Follows f r i p → w.Follows f s j q → r ≠ s →
    (∀ a, ¬ (p.slice.Covers size a ∧ q.slice.Covers size a)) → p.Unrelated q

/-- The elements from a scan on cannot always be taken. And slices that take up no memory may be at
one address, if they are empty, or parts of one buffer whose elements take up none. -/
theorem not_always_interchangeable :
    (¬ ∀ (w : World) (r : RecordId) (i : Nat) (p : Spot Int64), w.Reachable → w.IsCalm →
      w.Follows .int r i p →
      ∃ v, (Op.values i).run.run w = (.ok (p.values.length, p.values.map .int), v)) ∧
    ¬ RefuseApart Item.int 8 ∧ ¬ RefuseApart (fun _ : Unit => Item.unit) 0 := by
  refine ⟨fun h => ?_, fun h => ?_, fun h => ?_⟩
  · have hi : crowdedArray.Follows .int 0 0 (.place (bufferOf false) 0) :=
      ⟨⟨⟨0, some ⟨4, 0⟩⟩, by decide, by decide⟩, by decide, by decide⟩
    obtain ⟨v, hv⟩ := h crowdedArray 0 0 _ (reachable_foldl _ _) ⟨by decide, by decide⟩ hi
    have he : crowdedArray.refusal? 0 = some (.slotsExhausted 5) := by decide
    have hcopy := Op.run_copyScan_of_refusal hi he
    rw [Op.values, Op.run_bind, hcopy] at hv
    cases hv
  · have hfollows (k : Fin 2) :
        (twoArrays .int 0 (.int 0)).Follows .int k k (.place ⟨8, []⟩ 0) := by
      refine ⟨⟨⟨k, some ⟨0, 0⟩⟩, rfl, ?_⟩, ?_, by decide⟩ <;> revert k <;> decide
    have hrefuse :=
      h _ 0 1 0 1 _ _ (reachable_foldl _ _) ⟨by decide, by decide⟩ (hfollows 0) (hfollows 1)
      (by decide) (by simp [Slice.Covers, Spot.place])
    exact absurd hrefuse.same (by decide)
  · have hfirst : (twoArrays .unit 2 .unit).Follows (fun _ : Unit => .unit) 0 0
        (.place (.part 8 0 [(), (), ()] 0 2) 0) :=
      ⟨⟨⟨0, some ⟨0, 0⟩⟩, rfl, by decide⟩, by decide, by decide⟩
    have hsecond : (twoArrays .unit 2 .unit).Follows (fun _ : Unit => .unit) 1 1
        (.place (.part 8 0 [(), (), ()] 1 3) 0) :=
      ⟨⟨⟨1, some ⟨0, 0⟩⟩, rfl, by decide⟩, by decide, by decide⟩
    have hrefuse := h _ 0 1 0 1 _ _ (reachable_foldl _ _) ⟨by decide, by decide⟩ hfirst hsecond
      (by decide) (by simp [Slice.Covers, Spot.place, Slice.part])
    exact absurd hrefuse.same (by decide)

end World

end Custody

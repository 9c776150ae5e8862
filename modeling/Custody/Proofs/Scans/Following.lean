import Custody.Proofs.Walks.Moves
import Custody.Slice

/-! Positions in slices and scans of arrays and rows. A scan follows a position in a slice
if it is at the same place, in a range that can be read and holds the elements of the slice.
What it shows is then what the position in the slice shows. -/

namespace Custody

variable {α : Type} {f : α → Item}

namespace Slice

variable {s t : Slice α} {size : Nat}

/-- The byte at an address belongs to a slice of elements that have `size` bytes each. -/
def Covers (size : Nat) (s : Slice α) (a : Nat) : Prop :=
  s.address ≤ a ∧ a < s.address + size * s.items.length

def SameBytes (size : Nat) (s t : Slice α) : Prop := ∀ a, s.Covers size a ↔ t.Covers size a

theorem same_iff : s.same t = true ↔ s.address = t.address ∧ s.items.length = t.items.length := by
  simp [same]

theorem sameBytes_of_same (h : s.same t = true) : s.SameBytes size t := by
  obtain ⟨ha, hl⟩ := same_iff.mp h
  intro a
  rw [Covers, Covers, ha, hl]

/-- A slice that takes up memory is told from every other one by its bytes. -/
theorem same_iff_sameBytes (hs : 0 < size * s.items.length) :
    s.same t = true ↔ s.SameBytes size t := by
  refine ⟨sameBytes_of_same, fun h => ?_⟩
  have hfirst : t.Covers size s.address := (h s.address).mp ⟨le_rfl, by omega⟩
  have ht : 0 < size * t.items.length := by
    have := hfirst.1
    have := hfirst.2
    omega
  have hfirst' : s.Covers size t.address := (h t.address).mpr ⟨le_rfl, by omega⟩
  have haddress : s.address = t.address := Nat.le_antisymm hfirst'.1 hfirst.1
  -- the last byte of either one is in the other
  have hlast : t.Covers size (s.address + size * s.items.length - 1) :=
    (h _).mp ⟨by omega, by omega⟩
  have hlast' : s.Covers size (t.address + size * t.items.length - 1) :=
    (h _).mpr ⟨by omega, by omega⟩
  have hbytes : size * s.items.length = size * t.items.length := by
    have := hlast.2
    have := hlast'.2
    omega
  exact same_iff.mpr ⟨haddress, Nat.eq_of_mul_eq_mul_left (Nat.pos_of_mul_pos_right hs) hbytes⟩

end Slice

namespace Spot

variable {p q : Spot α}

@[simp] theorem slice_move (m : Position.Move) : (p.move m).slice = p.slice := rfl

/-- The element that is aimed at. -/
def seen (p : Spot α) : Aim → Except AccessRefusal α
  | .here => p.get
  | .away n => p.away n

theorem seen_eq (p : Spot α) (a : Aim) :
    p.seen a = (p.position.aim p.position.length.toNat a).bind p.element := by
  cases a with
  | here => rw [Position.aim_length_here, seen, get]
  | away n => rw [Position.aim_length_away, seen, away]

theorem comparable_of_same (h : p.slice.same q.slice = true) : p.comparable q = .ok () := if_pos h

theorem distance_of_same {d : Int64} (h : p.slice.same q.slice = true)
    (hd : p.position.distance q.position = .ok d) : p.distance q = .ok d := by
  rw [distance, comparable_of_same h]
  dsimp only
  rw [hd]

theorem comparable_of_not_same (h : ¬ p.slice.same q.slice = true) :
    p.comparable q = .error .unrelated :=
  if_neg h

end Spot

/-- The element at an index of what a slice tells. -/
theorem elementAt_map (p : Spot α) (ix : UInt64) :
    elementAt (p.slice.items.map f) ix = (p.element ix).map f := by
  rw [elementAt, Spot.element, List.getElem?_map, List.length_map]
  cases p.slice.items[ix.toNat]? <;> rfl

namespace World

variable {u v w : World} {i j : Nat} {r s : RecordId} {p q : Spot α}

/-- A scan of record `r` is where a position in a slice is. The record's range can be read, and
holds what `f` makes of the elements of the slice. -/
structure Follows (w : World) (f : α → Item) (r : RecordId) (i : Nat) (p : Spot α) : Prop where
  scan : ∃ k : Watch, k.record = r ∧ w.scans[i]? = some ⟨some k, p.position⟩
  holds : w.open? r .shared = .ok (p.slice.items.map f)
  length : p.position.length.toNat = p.slice.items.length

theorem scan_eq {c : Scan} (h : w.scans[i]? = some c) : w.scan i = c := by
  rw [scan, h, Option.getD_some]

namespace Follows

theorem position (h : w.Follows f r i p) : (w.scan i).position = p.position := by
  obtain ⟨k, -, hk⟩ := h.scan
  rw [scan_eq hk]

theorem array (h : w.Follows f r i p) : ∃ k : Watch, k.record = r ∧ (w.scan i).array = some k := by
  obtain ⟨k, hr, hk⟩ := h.scan
  exact ⟨k, hr, by rw [scan_eq hk]⟩

theorem isNull (h : w.Follows f r i p) : (w.scan i).isNull = false := by
  obtain ⟨k, -, hk⟩ := h.array
  rw [Scan.isNull, hk, Option.isNone_some]

theorem isAlive (h : w.Follows f r i p) : w.isAlive r = true := (open?_eq_ok h.holds).1

theorem inspect (h : w.Follows f r i p) (hw : w.Sound) :
    w.inspect (.soft (.scan i)) .shared = .ok (r, p.slice.items.map f) := by
  obtain ⟨k, rfl, hk⟩ := h.scan
  apply hw.inspect_soft _ h.holds
  rw [soft?, hk]
  rfl

/-- The element that a scan aims at, or the refusal that says where it is not. -/
theorem scanned (h : w.Follows f r i p) (hw : w.Sound) (a : Aim) :
    w.scanned i a = (p.seen a).map f := by
  -- a scan is measured against what it sees now, which is what it was made with
  have hlength : (p.slice.items.map f).length = p.position.length.toNat := by
    rw [List.length_map, h.length]
  have hscanned : w.scanned i a = (p.position.aim p.position.length.toNat a).bind
      (elementAt (p.slice.items.map f)) := by
    rw [World.scanned, h.inspect hw, h.position, ← hlength]
    rfl
  rw [hscanned, p.seen_eq a]
  cases p.position.aim p.position.length.toNat a with
  | error e => rfl
  | ok ix => exact elementAt_map p ix

theorem elementsFrom (h : w.Follows f r i p) (hw : w.Sound) :
    w.elementsFrom i = .ok (p.values.map f) := by
  rw [World.elementsFrom, h.inspect hw]
  change Except.ok ((p.slice.items.map f).drop (w.scan i).position.index.toNat) = _
  rw [h.position, Spot.values, List.map_drop]

theorem remaining (h : w.Follows f r i p) : p.position.remaining = p.values.length := by
  rw [Position.remaining, h.length, Spot.values, List.length_drop]

/-! ### Comparing -/

theorem comparable (hi : w.Follows f r i p) (hj : w.Follows f s j q)
    (hrs : p.slice.same q.slice = true ↔ r = s) :
    (w.scan i).comparable (w.scan j) = p.comparable q := by
  obtain ⟨k, rfl, hk⟩ := hi.array
  obtain ⟨l, rfl, hl⟩ := hj.array
  rw [Scan.comparable, Spot.comparable, hi.isNull, hk, hl]
  by_cases h : k.record = l.record
  · rw [if_pos (by simp [sameTarget, h]), if_pos (hrs.mpr h)]
  · rw [if_neg (by simp [sameTarget, h]), if_neg (mt hrs.mp h)]

theorem distance (hi : w.Follows f r i p) (hj : w.Follows f s j q)
    (hrs : p.slice.same q.slice = true ↔ r = s) :
    (w.scan i).distance (w.scan j) = p.distance q := by
  have hcomparable := hi.comparable hj hrs
  cases h : p.comparable q with
  | error e => simp [Scan.distance, Spot.distance, hcomparable, h]
  | ok u =>
    cases hd : p.position.distance q.position <;>
      simp [Scan.distance, Spot.distance, hcomparable, h, hi.position, hj.position, hd]

theorem same (hi : w.Follows f r i p) (hj : w.Follows f s j q)
    (hrs : p.slice.same q.slice = true ↔ r = s) : (w.scan i).same (w.scan j) = p.same q := by
  rw [Scan.same, Spot.same, hi.comparable hj hrs, hi.isNull, hj.isNull, hi.position, hj.position]
  rfl

theorem order (hi : w.Follows f r i p) (hj : w.Follows f s j q)
    (hrs : p.slice.same q.slice = true ↔ r = s) : (w.scan i).order (w.scan j) = p.order q := by
  rw [Scan.order, Spot.order, hi.comparable hj hrs, hi.isNull, hj.isNull, hi.position, hj.position]
  rfl

/-! ### Staying and moving -/

/-- A scan that is left alone, of an object that is, stays where it is. -/
theorem congr (h : w.Follows f r i p) (ha : w.Alike v) (hv : v.scans[i]? = w.scans[i]?) :
    v.Follows f r i p where
  scan := hv ▸ h.scan
  holds := (ha.open? r .shared).trans h.holds
  length := h.length

theorem moveScan (h : w.Follows f r i p) (m : Position.Move) :
    (w.moveScan i m).Follows f r i (p.move m) where
  scan := by
    obtain ⟨k, hr, hk⟩ := h.scan
    refine ⟨k, hr, ?_⟩
    rw [World.moveScan, Array.getElem?_modify, if_pos rfl, hk]
    rfl
  holds := h.holds
  length := by
    have hlength : (p.move m).position.length = p.position.length := Position.length_move _ m
    rw [hlength]
    exact h.length

theorem moveScan_ne (h : w.Follows f r i p) (m : Position.Move) (hij : j ≠ i) :
    (w.moveScan j m).Follows f r i p := by
  refine h.congr (v := w.moveScan j m) ⟨rfl, rfl⟩ ?_
  rw [World.moveScan, Array.getElem?_modify, if_neg hij]

end Follows

/-- A scan that is made at an index. -/
theorem Reachable.follows_place (h : w.Reachable) {sl : Slice α} {k : Watch} {ix : UInt64}
    (hopen : w.open? k.record .shared = .ok (sl.items.map f))
    (hi : w.scans[i]? = some ⟨some k, .clamped ix (UInt64.ofNat (w.rangeLength (some k.record)))⟩) :
    w.Follows f k.record i (.place sl ix) := by
  obtain ⟨rec, hrec, hobj⟩ := Option.bind_eq_some_iff.mp (open?_eq_ok hopen).2
  have hmeasured := h.measured hrec
  have hlength : rec.length = sl.items.length := by
    rw [← hmeasured.length _ hobj, List.length_map]
  have hrange : w.rangeLength (some k.record) = sl.items.length := by
    rw [rangeLength, hrec, Option.map_some, Option.getD_some, hlength]
  refine ⟨⟨k, rfl, ?_⟩, hopen, ?_⟩
  · rw [hi, hrange]
    rfl
  · rw [Spot.place, Position.length_clamped, Slice.length, UInt64.toNat_ofNat']
    exact Nat.mod_eq_of_lt (hlength ▸ hmeasured.word)

end World

end Custody

import Custody.Handle.Range
import Custody.Proofs.Ledger.Actions

/-! The addresses of elements and their indices are each other's inverse, whatever size the
elements have: the elements lie side by side from the start of the payload on, the end has an
address too, and no other address has an index. Main result: `addresses_invert`. -/

namespace Custody

namespace World

variable {base size length address i : Nat}

theorem addressIn_of_lt {j : UInt64} (h : length < j.toNat) (base : Except AccessRefusal Nat) :
    addressIn base size length j = .error (.outOfRange j.toNat length) := by
  rw [addressIn, if_pos h]

/-- No element of a range that stays below the top of the address space lies past it, and none
lies at address zero. -/
theorem addressIn_of_le {j : UInt64} (h : j.toNat ≤ length) (hbase : 0 < base)
    (htop : base + length * size < addressSpace) :
    addressIn (.ok base) size length j = .ok (base + j.toNat * size) := by
  have hle : j.toNat * size ≤ length * size := Nat.mul_le_mul_right size h
  have hmod : (base + j.toNat * size) % addressSpace = base + j.toNat * size :=
    Nat.mod_eq_of_lt (by omega)
  rw [addressIn, if_neg (Nat.not_lt.mpr h)]
  change (if (base + j.toNat * size) % addressSpace = 0 then _ else _) = _
  rw [hmod, if_neg (by omega)]
  rfl

theorem indexIn_of_sizeless (base length address : Nat) :
    indexIn (.ok base) 0 length address = if address = base then .ok 0 else .error .unrelated := rfl

theorem indexIn_of_pos (h : 0 < size) :
    indexIn (.ok base) size length address =
      if base ≤ address ∧ (address - base) % size = 0 ∧ (address - base) / size ≤ length then
        .ok ((address - base) / size)
      else .error .unrelated := by
  change (if size = 0 then _ else if address < base then _ else
    if (address - base) % size ≠ 0 ∨ length < (address - base) / size then _ else _) = _
  rw [if_neg h.ne']
  by_cases hlow : address < base
  · rw [if_pos hlow, if_neg fun h => by omega]
    rfl
  · rw [if_neg hlow]
    split_ifs with hbad hgood hgood
    · exact absurd hbad (by omega)
    · rfl
    · rfl
    · exact absurd (by omega) hgood

/-- Dividing the distance from the base finds the element, if one starts there. -/
theorem indexIn_eq_ok (h : 0 < size) :
    indexIn (.ok base) size length address = .ok i ↔ i ≤ length ∧ address = base + i * size := by
  rw [indexIn_of_pos h]
  constructor
  · intro hi
    split_ifs at hi with hgood
    obtain ⟨hlow, hmod, hle⟩ := hgood
    obtain rfl := Except.ok.inj hi
    exact ⟨hle, by rw [Nat.div_mul_cancel (Nat.dvd_of_mod_eq_zero hmod)]; omega⟩
  · rintro ⟨hle, rfl⟩
    rw [Nat.add_sub_cancel_left, Nat.mul_div_cancel _ h,
      if_pos ⟨Nat.le_add_right _ _, Nat.mul_mod_left _ _, hle⟩]

theorem indexIn_eq_unrelated (h : 0 < size) (hno : ∀ i ≤ length, address ≠ base + i * size) :
    indexIn (.ok base) size length address = .error .unrelated := by
  have hcases := @indexIn_of_pos base size length address h
  split_ifs at hcases with hgood
  · exact absurd ((indexIn_eq_ok h).mp hcases).2 (hno _ ((indexIn_eq_ok h).mp hcases).1)
  · exact hcases

end World

open World

/-- Addresses and indices of `length` elements of some size, whose payload is that of block
`b`, are each other's inverse. -/
structure Block.Inverts (b : Block) (size length : Nat)
    (address : UInt64 → Except AccessRefusal Nat) (index : Nat → Except AccessRefusal Nat) :
    Prop where
  /-- An index up to the length has an address, and no other. -/
  address_eq : ∀ i, address i =
    if i.toNat ≤ length then .ok (b.payload + i.toNat * size)
    else .error (.outOfRange i.toNat length)
  /-- An address has an index if an element starts there or the last one ends there, -/
  index_eq_ok : 0 < size → ∀ p i, index p = .ok i ↔ i ≤ length ∧ p = b.payload + i * size
  /-- and no other has one. -/
  index_eq_unrelated : 0 < size → ∀ p,
    (∀ i ≤ length, p ≠ b.payload + i * size) → index p = .error .unrelated
  index_address : 0 < size → ∀ i p, address i = .ok p → index p = .ok i.toNat
  address_index : ∀ p i, index p = .ok i → address (.ofNat i) = .ok p
  contains_iff : 0 < size → ∀ i p, address i = .ok p → (b.contains p = true ↔ i.toNat < length)
  /-- Elements without size all lie at the base, -/
  address_sizeless : size = 0 → ∀ i : UInt64, i.toNat ≤ length → address i = .ok b.payload
  /-- which alone has an index. -/
  index_sizeless : size = 0 → ∀ p, index p = if p = b.payload then .ok 0 else .error .unrelated

namespace Block

variable {b : Block} {size length : Nat}

/-- The address space ends behind the block: there is an address right behind its last byte. -/
theorem inverts_in (hformed : b.Formed) (hsize : b.payloadSize = size * length)
    (htop : b.base + b.size < addressSpace) :
    b.Inverts size length (addressIn (.ok b.payload) size length)
      (indexIn (.ok b.payload) size length) := by
  have hbase : 0 < b.payload := by
    have hhead := hformed.headed
    simp only [Block.header, Block.payload] at *
    omega
  have hend : b.payload + length * size < addressSpace := by
    have hinside := hformed.inside
    rw [Nat.mul_comm, ← hsize, Block.payload]
    omega
  have haddress (i : UInt64) : addressIn (.ok b.payload) size length i =
      if i.toNat ≤ length then .ok (b.payload + i.toNat * size)
      else .error (.outOfRange i.toNat length) := by
    split_ifs with hi
    · exact addressIn_of_le hi hbase hend
    · exact addressIn_of_lt (Nat.lt_of_not_le hi) _
  have hok {i : UInt64} {p : Nat} (h : addressIn (.ok b.payload) size length i = .ok p) :
      i.toNat ≤ length ∧ p = b.payload + i.toNat * size := by
    rw [haddress] at h
    split_ifs at h with hi
    exact ⟨hi, (Except.ok.inj h).symm⟩
  refine
    { address_eq := haddress
      index_eq_ok := fun hpos p i => indexIn_eq_ok hpos
      index_eq_unrelated := fun hpos p => indexIn_eq_unrelated hpos
      index_address := fun hpos i p h => (indexIn_eq_ok hpos).mpr (hok h)
      address_index := fun p i h => ?_
      contains_iff := fun hpos i p h => ?_
      address_sizeless := fun hzero i hi => ?_
      index_sizeless := fun hzero p => by rw [hzero, indexIn_of_sizeless] }
  · obtain rfl | hpos := Nat.eq_zero_or_pos size
    · rw [indexIn_of_sizeless] at h
      split_ifs at h with hp
      obtain rfl := Except.ok.inj h
      have hword : (UInt64.ofNat 0).toNat = 0 := rfl
      rw [haddress, hword, if_pos (Nat.zero_le _), hp, Nat.zero_mul, Nat.add_zero]
    · obtain ⟨hi, rfl⟩ := (indexIn_eq_ok hpos).mp h
      have hmul : i * 1 ≤ length * size := Nat.mul_le_mul hi hpos
      have hword : (UInt64.ofNat i).toNat = i :=
        UInt64.toNat_ofNat_of_lt'
          (by simp only [addressSpace] at hend; simp only [UInt64.size]; omega)
      rw [haddress, hword, if_pos hi]
  · obtain ⟨-, rfl⟩ := hok h
    simp only [Block.contains, Bool.and_eq_true, decide_eq_true_eq, hsize,
      Nat.le_add_right, true_and, Nat.add_lt_add_iff_left, Nat.mul_comm size,
      Nat.mul_lt_mul_right hpos]
  · rw [haddress, if_pos hi, hzero, Nat.mul_zero, Nat.add_zero]

end Block

namespace World

variable {w : World} {s : Soft} {r : RecordId}

/-- A handle whose object is alive gives the payload's address, the size of the elements and
how many there are. -/
theorem Reachable.baseAddress_eq (hw : w.Reachable) (hs : w.watched s = .ok r) :
    ∃ rec b, w.records[r]? = some rec ∧ rec.block = some b ∧ w.baseAddress s = .ok b.payload ∧
      w.elementSize s = rec.kind.element.layout.size ∧ w.softLength s = rec.length := by
  cases s with
  | none => cases hs
  | some k =>
    have hwatched := hs
    unfold watched at hs
    cases hr : w.records[k.record]? with
    | none => simp [hr] at hs
    | some rec =>
      simp only [hr] at hs
      split_ifs at hs with hv ha
      obtain rfl := Except.ok.inj hs
      have halive : rec.isAlive = true := by simpa using ha
      have hobject : rec.object.isSome = true := (Bool.and_eq_true_iff.mp halive).2
      obtain ⟨b, hb⟩ := Option.isSome_iff_exists.mp ((hw.sound.agrees hr).housed hobject)
      refine ⟨rec, b, hr, hb, ?_, by simp [elementSize, hr], by simp [softLength, rangeLength, hr]⟩
      have haddress : w.records[k.record]?.bind Record.address? = some b.payload := by
        simp [hr, Record.address?, hobject, hb]
      simp only [baseAddress, hwatched, bind, Except.bind, haddress]

/-- For every handle whose object is alive, addresses and indices of the elements are each
other's inverse; and so they are for elements of every size, in every number and in every
block. -/
theorem addresses_invert (hw : w.Reachable) (hs : w.watched s = .ok r) :
    (∃ rec b, w.records[r]? = some rec ∧ rec.block = some b ∧
      (b.base + b.size < addressSpace →
        b.Inverts rec.kind.element.layout.size rec.length (w.elementAddress s)
          (w.elementIndex s))) ∧
      ∀ (b : Block) (size length : Nat), b.Formed → b.payloadSize = size * length →
        b.base + b.size < addressSpace →
          b.Inverts size length (addressIn (.ok b.payload) size length)
            (indexIn (.ok b.payload) size length) := by
  refine ⟨?_, fun b size length hformed hsize htop => Block.inverts_in hformed hsize htop⟩
  obtain ⟨rec, b, hr, hb, hbase, hsize, hlength⟩ := hw.baseAddress_eq hs
  refine ⟨rec, b, hr, hb, fun htop => ?_⟩
  have haddress : w.elementAddress s =
      addressIn (.ok b.payload) rec.kind.element.layout.size rec.length := by
    funext i
    rw [elementAddress, hbase, hsize, hlength]
  have hindex : w.elementIndex s =
      indexIn (.ok b.payload) rec.kind.element.layout.size rec.length := by
    funext p
    rw [elementIndex, hbase, hsize, hlength]
  rw [haddress, hindex]
  exact Block.inverts_in (hw.formed hr hb) (hw.filled hr b hb) htop

/-- Three integers of eight bytes with an observer. -/
def observedInts : World :=
  [.construct 0 ⟨.array, .int, .tracked⟩ ⟨3, fun _ => .int 7, none⟩, .newSoft,
    .attach 0 (.soft 0)].foldl Action.run (start defaultGrant)

/-- The end has an address, and an address between two elements has no index. -/
theorem addresses_invert_ints :
    observedInts.elementAddress (observedInts.soft (.soft 0)) 3 = .ok 70368744177736 ∧
      observedInts.elementIndex (observedInts.soft (.soft 0)) 70368744177736 = .ok 3 ∧
      observedInts.elementIndex (observedInts.soft (.soft 0)) 70368744177715 =
        .error .unrelated := by
  have hwatched : observedInts.watched (observedInts.soft (.soft 0)) = .ok 0 := by decide
  obtain ⟨⟨rec, b, hr, hb, hinverts⟩, -⟩ :=
    addresses_invert (w := observedInts) (reachable_foldl _ _) hwatched
  have hblock : observedInts.records[0]?.map
      (fun rec => (rec.block.map fun b => (b.payload, b.base + b.size), rec.length,
        rec.kind.element)) = some (some (70368744177712, 70368744177736), 3, .int) := by decide
  rw [hr, Option.map_some, hb, Option.map_some] at hblock
  simp only [Option.some.injEq, Prod.mk.injEq] at hblock
  obtain ⟨⟨hpayload, htop⟩, hlength, helement⟩ := hblock
  have hx := hinverts (by rw [htop]; decide)
  rw [helement, hlength] at hx
  have haddress :
      observedInts.elementAddress (observedInts.soft (.soft 0)) 3 = .ok 70368744177736 := by
    rw [hx.address_eq, hpayload]
    rfl
  refine ⟨haddress, hx.index_address (by decide) 3 _ haddress,
    hx.index_eq_unrelated (by decide) _ ?_⟩
  intro i hi
  rw [hpayload]
  change 70368744177715 ≠ 70368744177712 + i * 8
  omega

end World

end Custody

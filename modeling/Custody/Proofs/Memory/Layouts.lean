import Custody.Proofs.Memory.Forms
import Custody.World.Filling
import Mathlib.Algebra.Group.Nat.Defs
import Mathlib.Order.Bounds.Basic
import Mathlib.Tactic.SplitIfs

/-! The layouts of blocks. A block for a payload has the least size with room for the
header and for the payload at an address that suits it, and it is refused exactly if that
size is too large. Wherever such a block lies, its payload is where it has to be, and the
sums that its layout takes can be taken in machine words. -/

namespace Custody

/-! ### Rounding -/

section Rounding

variable {n m align : Nat}

theorem roundUp_eq (h : 0 < align) : roundUp n align = (n + (align - 1)) / align * align := by
  rw [roundUp, Nat.max_eq_left h]

theorem dvd_roundUp (h : 0 < align) : align ∣ roundUp n align := by
  rw [roundUp_eq h]
  exact Nat.dvd_mul_left _ _

/-- A multiple bounds a number exactly if it bounds the number rounded up. -/
theorem roundUp_le_iff (h : 0 < align) (hm : align ∣ m) : roundUp n align ≤ m ↔ n ≤ m := by
  refine ⟨(le_roundUp n align).trans, fun hn => ?_⟩
  obtain ⟨c, rfl⟩ := hm
  rw [roundUp_eq h, Nat.mul_comm align c]
  refine Nat.mul_le_mul_right align (Nat.lt_succ_iff.mp ((Nat.div_lt_iff_lt_mul h).mpr ?_))
  rw [Nat.succ_mul, Nat.mul_comm c]
  omega

theorem roundUp_lt (h : 0 < align) : roundUp n align < n + align := by
  have hd := Nat.div_mul_le_self (n + (align - 1)) align
  rw [roundUp_eq h]
  omega

end Rounding

/-! ### Valid layouts -/

namespace Layout

variable {l : Layout}

/-- A layout there is: its alignment is a power of two, and its size, rounded up, is at
most the largest signed word. -/
structure Valid (l : Layout) : Prop where
  align : ∃ k < 64, l.align = 2 ^ k
  size : roundUp l.size l.align ≤ limit

theorem align_pos {a : Nat} (h : ∃ k < 64, a = 2 ^ k) : 0 < a := by
  obtain ⟨k, -, rfl⟩ := h
  exact Nat.two_pow_pos k

theorem align_dvd {a : Nat} (h : ∃ k < 64, a = 2 ^ k) : a ∣ limit + 1 := by
  obtain ⟨k, hk, rfl⟩ := h
  exact Nat.pow_dvd_pow 2 (Nat.le_of_lt_succ hk : k ≤ 63)

/-- The size is held against the limit before it is rounded: the largest multiple within
the limit is what is left of it. -/
theorem le_limit_iff {n a : Nat} (h : ∃ k < 64, a = 2 ^ k) :
    n ≤ limit - (a - 1) ↔ roundUp n a ≤ limit := by
  have hpos := align_pos h
  have hdvd := align_dvd h
  have hle : a ≤ limit + 1 := Nat.le_of_dvd (Nat.succ_pos _) hdvd
  have hlast : a ∣ limit + 1 - a := Nat.dvd_sub hdvd (Nat.dvd_refl a)
  rw [show limit - (a - 1) = limit + 1 - a by omega, ← roundUp_le_iff hpos hlast]
  refine ⟨fun hn => by omega, fun hn => ?_⟩
  obtain ⟨c, hc⟩ := dvd_roundUp (n := n) hpos
  obtain ⟨d, hd⟩ := hdvd
  have hcd : c < d := Nat.lt_of_mul_lt_mul_left (a := a) (by omega)
  have hmul := Nat.mul_le_mul_left a (Nat.succ_le_of_lt hcd)
  rw [Nat.mul_succ] at hmul
  omega

/-- The check accepts the valid layouts and no other. -/
theorem checked_eq {n a : Nat} (h : ∃ k < 64, a = 2 ^ k) :
    checked n a = if roundUp n a ≤ limit then some ⟨n, a⟩ else none := by
  simp only [checked, le_limit_iff h]

/-- Elements side by side have a layout as long as they stay within the limit. -/
theorem array_eq (h : l.Valid) (count : Nat) :
    l.array count =
      if roundUp (l.size * count) l.align ≤ limit then some ⟨l.size * count, l.align⟩ else none :=
  checked_eq h.align

/-- The alignment of a block around a payload. -/
def outer (payload : Layout) : Nat := max Block.header.align payload.align

theorem outer_pow (h : ∃ k < 64, l.align = 2 ^ k) : ∃ k < 64, l.outer = 2 ^ k := by
  obtain ⟨k, hk, ha⟩ := h
  rw [Layout.outer, ha, show Block.header.align = 2 ^ 3 from rfl]
  obtain h3 | h3 := Nat.le_total k 3
  · exact ⟨3, by decide, Nat.max_eq_left (Nat.pow_le_pow_right (by decide) h3)⟩
  · exact ⟨k, hk, Nat.max_eq_right (Nat.pow_le_pow_right (by decide) h3)⟩

theorem align_dvd_outer (h : ∃ k < 64, l.align = 2 ^ k) : l.align ∣ l.outer := by
  obtain ⟨k, -, ha⟩ := h
  rw [Layout.outer, ha, show Block.header.align = 2 ^ 3 from rfl]
  obtain h3 | h3 := Nat.le_total k 3
  · rw [Nat.max_eq_left (Nat.pow_le_pow_right (by decide) h3)]
    exact Nat.pow_dvd_pow 2 h3
  · exact ⟨1, by rw [Nat.mul_one, Nat.max_eq_right (Nat.pow_le_pow_right (by decide) h3)]⟩

/-- Where the payload starts in a block, counted from its base. -/
def behind (payload : Layout) : Nat := roundUp Block.header.size payload.align

/-- The size of a block around a payload. -/
def around (payload : Layout) : Nat := roundUp (payload.behind + payload.size) payload.outer

/-- Whether a block of some size, at a base that suits it, has room for the header and
for a payload: the payload has to start behind the header at a multiple of its alignment, and
the size is a multiple of the block's. -/
structure FitsIn (payload : Layout) (size : Nat) : Prop where
  rounded : payload.outer ∣ size
  room : ∃ offset, Block.header.size ≤ offset ∧ payload.align ∣ offset ∧
    offset + payload.size ≤ size

theorem isLeast_around (h : ∃ k < 64, l.align = 2 ^ k) :
    IsLeast { size | l.FitsIn size } l.around := by
  have hpos := align_pos h
  have houter := align_pos (outer_pow h)
  constructor
  · exact ⟨dvd_roundUp houter, l.behind, le_roundUp _ _, dvd_roundUp hpos, le_roundUp _ _⟩
  · rintro size ⟨hsize, offset, hhead, hdvd, hroom⟩
    have hbehind : l.behind ≤ offset := (roundUp_le_iff hpos hdvd).mpr hhead
    exact (roundUp_le_iff houter hsize).mpr (by omega)

end Layout

theorem Block.around_eq {payload : Layout} (h : payload.Valid) :
    Block.around payload =
      if payload.around ≤ Layout.limit then
        some (⟨payload.around, payload.outer⟩, payload.behind)
      else none := by
  unfold Block.around Layout.extend
  dsimp only
  rw [show max Block.header.align payload.align = payload.outer from rfl,
    show roundUp Block.header.size payload.align = payload.behind from rfl,
    Layout.checked_eq (Layout.outer_pow h.align)]
  change Option.map _ (Option.map _ (if payload.around ≤ Layout.limit then _ else _)) = _
  split_ifs <;> rfl

/-! ### Sums -/

namespace Layout

variable {l : Layout}

/-- The sums that the layout of a block is made of, before they are rounded: each but the
last is taken whether or not the block is refused. -/
def sums (payload : Layout) : List Nat :=
  [Block.header.size + (payload.align - 1), payload.behind + payload.size,
    payload.behind + payload.size + (payload.outer - 1)]

theorem Valid.size_le (h : l.Valid) : l.size + l.align ≤ limit + 1 := by
  have hle := Nat.le_of_dvd (Nat.succ_pos _) (align_dvd h.align)
  have hsize := (le_limit_iff h.align).mpr h.size
  have hpos := align_pos h.align
  omega

theorem Valid.behind_add_size_lt (h : l.Valid) :
    l.behind + l.size < limit + 1 + Block.header.size := by
  have hbehind : l.behind < Block.header.size + l.align := roundUp_lt (align_pos h.align)
  have hsize := h.size_le
  omega

/-- What is added up before the size is held against the limit stays within a word. -/
theorem Valid.first_sums_lt (h : l.Valid) :
    Block.header.size + (l.align - 1) < UInt64.size ∧ l.behind + l.size < UInt64.size := by
  have hsize := h.size_le
  have hroom := h.behind_add_size_lt
  simp only [Block.header, limit, UInt64.size] at *
  omega

theorem Valid.sums_lt (h : l.Valid) (hl : l.around ≤ limit) : ∀ n ∈ l.sums, n < UInt64.size := by
  have hlast : l.behind + l.size ≤ l.around := le_roundUp _ _
  have houter := Nat.le_of_dvd (Nat.succ_pos _) (align_dvd (outer_pow h.align))
  simp only [sums, List.mem_cons, List.not_mem_nil, or_false, forall_eq_or_imp, forall_eq]
  refine ⟨h.first_sums_lt.1, h.first_sums_lt.2, ?_⟩
  simp only [limit, UInt64.size] at *
  omega

end Layout

/-! ### Machine words -/

namespace Word

variable {n a k : Nat}

/-- Rounding with a mask; the sum wraps around. -/
def roundUp (n align : UInt64) : UInt64 := (n + (align - 1)) &&& ~~~(align - 1)

/-- The size and alignment of the block around a payload and where the payload starts, all in
words whose sums wrap around. -/
def around (size align : UInt64) : Option (UInt64 × UInt64 × UInt64) :=
  let offset := roundUp 48 align
  let outer := max 8 align
  if offset + size ≤ 9223372036854775807 - (outer - 1) then
    some (roundUp (offset + size) outer, outer, offset)
  else none

/-- Whether an address lies in a payload of some size, which starts at an offset from a base. -/
def contains (base offset size address : UInt64) : Bool :=
  base + offset ≤ address && address < base + offset + size

/-- Clearing the low bits rounds down. -/
theorem and_mask {x : Nat} (hk : k < 64) (hx : x < UInt64.size) :
    x &&& (UInt64.size - 1 - (2 ^ k - 1)) = x / 2 ^ k * 2 ^ k := by
  have hlow : 2 ^ k - 1 < 2 ^ 64 :=
    lt_of_le_of_lt (Nat.sub_le _ _) (Nat.pow_lt_pow_right (by decide) hk)
  have hmask : UInt64.size - 1 - (2 ^ k - 1) = 2 ^ 64 - (2 ^ k - 1 + 1) := by
    rw [show UInt64.size = 2 ^ 64 from rfl]
    omega
  apply Nat.eq_of_testBit_eq
  intro i
  rw [hmask, Nat.testBit_and, Nat.testBit_two_pow_sub_succ hlow, Nat.testBit_two_pow_sub_one,
    Nat.testBit_mul_two_pow, Nat.testBit_div_two_pow]
  by_cases hi : i < k
  · simp [hi]
  · rw [Nat.sub_add_cancel (Nat.le_of_not_lt hi)]
    -- no bit of a word lies past the last one
    have hlast : x.testBit i = true → i < 64 := fun hbit => by
      by_contra hge
      rw [Nat.testBit_lt_two_pow (Nat.lt_of_lt_of_le hx
        (Nat.pow_le_pow_right (by decide) (Nat.le_of_not_lt hge) : 2 ^ 64 ≤ 2 ^ i))] at hbit
      exact Bool.noConfusion hbit
    cases hbit : x.testBit i with
    | false => simp
    | true => simp [hi, hlast hbit, Nat.le_of_not_lt hi]

theorem roundUp_ofNat (ha : ∃ k < 64, a = 2 ^ k) (hs : n + (a - 1) < UInt64.size) :
    roundUp (.ofNat n) (.ofNat a) = .ofNat (Custody.roundUp n a) := by
  have hpos := Layout.align_pos ha
  have hsub : UInt64.ofNat a - 1 = .ofNat (a - 1) := (UInt64.ofNat_sub hpos).symm
  have hnot : ~~~(UInt64.ofNat (a - 1)) = .ofNat (UInt64.size - 1 - (a - 1)) := by
    rw [← UInt64.toNat_inj, UInt64.toNat_not, UInt64.toNat_ofNat_of_lt' (by omega),
      UInt64.toNat_ofNat_of_lt' (lt_of_le_of_lt (Nat.sub_le _ _) (by decide))]
  rw [roundUp, hsub, hnot, ← UInt64.ofNat_add, ← UInt64.ofNat_and, roundUp_eq hpos]
  obtain ⟨k, hk, rfl⟩ := ha
  rw [and_mask hk hs]

theorem max_ofNat (hn : n < UInt64.size) (ha : a < UInt64.size) :
    max (UInt64.ofNat n) (.ofNat a) = .ofNat (max n a) := by
  rw [← UInt64.toNat_inj, UInt64.toNat_max, UInt64.toNat_ofNat_of_lt' hn,
    UInt64.toNat_ofNat_of_lt' ha, UInt64.toNat_ofNat_of_lt' (Nat.max_lt.mpr ⟨hn, ha⟩)]

/-- The words are the numbers that they stand for: no sum that the layout of a block takes
wraps around. -/
theorem around_ofNat {payload : Layout} (h : payload.Valid) :
    around (.ofNat payload.size) (.ofNat payload.align) =
      (Block.around payload).map fun w => (.ofNat w.1.size, .ofNat w.1.align, .ofNat w.2) := by
  obtain ⟨hpad, hroom⟩ := h.first_sums_lt
  have halign : payload.align < UInt64.size :=
    Nat.lt_of_le_of_lt (Nat.le_of_dvd (Nat.succ_pos _) (Layout.align_dvd h.align)) (by decide)
  have houter : payload.outer - 1 ≤ Layout.limit :=
    Nat.sub_le_of_le_add
      (Nat.le_of_dvd (Nat.succ_pos _) (Layout.align_dvd (Layout.outer_pow h.align)))
  have hlimit : Layout.limit < UInt64.size := by decide
  have hoffset : roundUp 48 (.ofNat payload.align) = .ofNat payload.behind :=
    roundUp_ofNat h.align hpad
  have hmax : max 8 (UInt64.ofNat payload.align) = .ofNat payload.outer :=
    max_ofNat (by decide) halign
  have hrest : 9223372036854775807 - (UInt64.ofNat payload.outer - 1) =
      .ofNat (Layout.limit - (payload.outer - 1)) := by
    rw [UInt64.ofNat_sub houter, UInt64.ofNat_sub (Layout.align_pos (Layout.outer_pow h.align))]
    rfl
  have hle : (UInt64.ofNat (payload.behind + payload.size) ≤
      .ofNat (Layout.limit - (payload.outer - 1))) ↔ payload.around ≤ Layout.limit := by
    rw [UInt64.le_iff_toNat_le, UInt64.toNat_ofNat_of_lt' hroom,
      UInt64.toNat_ofNat_of_lt' (by omega), Layout.le_limit_iff (Layout.outer_pow h.align)]
    rfl
  simp only [around, hoffset, hmax, hrest, ← UInt64.ofNat_add, hle, Block.around_eq h]
  split_ifs with hfit
  · rw [roundUp_ofNat (Layout.outer_pow h.align) (h.sums_lt hfit _ (by simp [Layout.sums]))]
    rfl
  · rfl

theorem contains_ofNat {b : Block} {p : UInt64} (h : b.payload + b.payloadSize < UInt64.size) :
    contains (.ofNat b.base) (.ofNat b.offset) (.ofNat b.payloadSize) p = b.contains p.toNat := by
  have hbase : UInt64.ofNat b.base + .ofNat b.offset = .ofNat b.payload :=
    (UInt64.ofNat_add _ _).symm
  rw [contains, hbase, ← UInt64.ofNat_add, Block.contains]
  congr 1
  · rw [decide_eq_decide, UInt64.le_iff_toNat_le, UInt64.toNat_ofNat_of_lt' (by omega)]
  · rw [decide_eq_decide, UInt64.lt_iff_toNat_lt, UInt64.toNat_ofNat_of_lt' h]

end Word

/-! ### Blocks around payloads -/

namespace Layout

variable {l : Layout}

/-- Elements that have no layout side by side have none in a block either. -/
theorem Valid.lt_around_of_array (h : l.Valid) {count : Nat} (hn : l.array count = none) :
    limit < Layout.around ⟨l.size * count, l.align⟩ := by
  rw [array_eq h] at hn
  split_ifs at hn with hfit
  refine lt_of_not_ge fun haround => hfit (le_trans ?_ haround)
  have houter : l.align ∣ Layout.outer ⟨l.size * count, l.align⟩ := align_dvd_outer h.align
  have hdvd : l.align ∣ Layout.around ⟨l.size * count, l.align⟩ :=
    Nat.dvd_trans houter (dvd_roundUp (align_pos (outer_pow h.align)))
  rw [roundUp_le_iff (align_pos h.align) hdvd]
  exact (Nat.le_add_left _ _).trans (le_roundUp _ _)

theorem Valid.of_array (h : l.Valid) {count : Nat} {payload : Layout}
    (hp : l.array count = some payload) :
    payload = ⟨l.size * count, l.align⟩ ∧ payload.Valid := by
  rw [array_eq h] at hp
  split_ifs at hp with hfit
  obtain rfl := Option.some.inj hp
  exact ⟨rfl, h.align, hfit⟩

end Layout

/-- A block that serves a payload where it lies. -/
structure Block.Serves (b : Block) (payload : Layout) : Prop where
  aligned : payload.align ∣ b.payload
  headed : b.base + header.size ≤ b.payload
  inside : b.offset + b.payloadSize ≤ b.size
  /-- Every sum that leads to the layout or to an address stays within a word, -/
  sums : ∀ n ∈ payload.sums ++ [b.payload, b.payload + b.payloadSize], n < UInt64.size
  /-- so that words, whose sums wrap around, come to the same layout -/
  layout_words : Word.around (.ofNat payload.size) (.ofNat payload.align) =
    some (.ofNat b.size, .ofNat b.layout.align, .ofNat b.offset)
  /-- and to the same addresses. -/
  contains_words : ∀ p : UInt64,
    Word.contains (.ofNat b.base) (.ofNat b.offset) (.ofNat b.payloadSize) p = b.contains p.toNat
  contains_iff : ∀ p, b.contains p = true ↔ b.payload ≤ p ∧ p < b.payload + payload.size
  not_contains_header : ∀ p, b.base ≤ p → p < b.base + header.size → b.contains p = false
  not_contains_empty : payload.size = 0 → ∀ p, b.contains p = false

namespace Arena

variable {a : Arena} {payload : Layout}

/-- A block around a payload at some base. -/
def blockAt (base : Nat) (payload : Layout) (elements : Nat) : Block :=
  ⟨base, ⟨payload.around, payload.outer⟩, payload.behind, payload.size, elements, .unknown⟩

theorem allocate_eq (h : payload.Valid) (a : Arena) (elements : Nat) :
    a.allocate payload elements =
      if payload.around ≤ Layout.limit then
        if a.grant < payload.around then
          .error (.allocationFailed payload.around payload.outer)
        else
          .ok (blockAt (roundUp a.next payload.outer) payload elements,
            { a with next := roundUp a.next payload.outer + payload.around + gap })
      else .error (.layoutOverflow elements) := by
  rw [allocate, Block.around_eq h]
  split_ifs with hfit hgrant
  · simp [place, hgrant]
  · simp [place, hgrant, blockAt]
  · rfl

theorem serves_blockAt (h : payload.Valid) (hl : payload.around ≤ Layout.limit) {base : Nat}
    (hbase : payload.outer ∣ base) (htop : base + payload.around < UInt64.size) (elements : Nat) :
    (blockAt base payload elements).Serves payload := by
  have hhead : Block.header.size ≤ payload.behind := le_roundUp _ _
  have hinside : payload.behind + payload.size ≤ payload.around := le_roundUp _ _
  have hend : base + payload.behind + payload.size < UInt64.size := by omega
  have hcontains : ∀ p, (blockAt base payload elements).contains p = true ↔
      base + payload.behind ≤ p ∧ p < base + payload.behind + payload.size := fun p => by
    simp only [Block.contains, Bool.and_eq_true, decide_eq_true_eq]
    exact Iff.rfl
  refine
    { aligned := Nat.dvd_add (Nat.dvd_trans (Layout.align_dvd_outer h.align) hbase)
        (dvd_roundUp (Layout.align_pos h.align))
      headed := Nat.add_le_add_left hhead base
      inside := hinside
      sums := fun n hn => ?_
      layout_words := ?_
      contains_words := fun p => Word.contains_ofNat hend
      contains_iff := hcontains
      not_contains_header := fun p _ hp => ?_
      not_contains_empty := fun hempty p => ?_ }
  · obtain hn | hn := List.mem_append.mp hn
    · exact h.sums_lt hl n hn
    · simp only [List.mem_cons, List.not_mem_nil, or_false] at hn
      obtain rfl | rfl := hn
      · exact lt_of_le_of_lt (Nat.le_add_right _ _) hend
      · exact hend
  · rw [Word.around_ofNat h, Block.around_eq h, if_pos hl]
    rfl
  · rw [Bool.eq_false_iff, Ne, hcontains]
    have hp : p < base + Block.header.size := hp
    omega
  · rw [Bool.eq_false_iff, Ne, hcontains]
    omega

theorem allocate_eq_layoutOverflow (h : payload.Valid) (elements : Nat) :
    a.allocate payload elements = .error (.layoutOverflow elements) ↔
      Layout.limit < payload.around := by
  rw [allocate_eq h]
  split_ifs with hfit hgrant
  · simpa using hfit
  · simpa using hfit
  · simpa using hfit

/-- Elements side by side, whose own layout may be refused already, are refused by the size
of the block around them. -/
theorem assemble_eq_layoutOverflow {element : Layout} (he : element.Valid) (w : World)
    (heap : HeapId) (e : Element) (m : Mode) (count : Nat) (init : Initializer) :
    (w.assemble heap ⟨.array, e, m⟩ element count init).1 = .error (.layoutOverflow count) ↔
      Layout.limit < Layout.around ⟨element.size * count, element.align⟩ := by
  unfold World.assemble World.buildBy
  cases hp : element.array count with
  | none => exact iff_of_true rfl (he.lt_around_of_array hp)
  | some payload =>
    obtain ⟨rfl, hvalid⟩ := he.of_array hp
    rw [← allocate_eq_layoutOverflow (a := w.arena) hvalid count]
    dsimp only [World.allocate, Kind.recorded]
    cases w.arena.allocate _ count with
    | error _ => simp [Except.map]
    | ok _ =>
      dsimp only [Except.map]
      split <;> simp

/-- A block that was granted for a payload: it has the least size, and serves the payload wherever
it lies. -/
structure Suits (b : Block) (payload : Layout) (elements : Nat) : Prop where
  size : b.size = payload.around
  align : b.layout.align = payload.outer
  payloadSize : b.payloadSize = payload.size
  elements : b.elements = elements
  based : payload.outer ∣ b.base
  serves : ∀ base, payload.outer ∣ base → base + b.size < UInt64.size →
    { b with base := base }.Serves payload

/-- How a request for a payload ends: it is refused exactly if no block around the payload may have
the size that it needs. -/
structure Accommodates (a : Arena) (payload : Layout) (elements : Nat) : Prop where
  least : IsLeast { size | payload.FitsIn size } payload.around
  overflows_iff : a.allocate payload elements = .error (.layoutOverflow elements) ↔
    Layout.limit < payload.around
  denied : payload.around ≤ Layout.limit → a.grant < payload.around →
    a.allocate payload elements = .error (.allocationFailed payload.around payload.outer)
  granted : payload.around ≤ Layout.limit → payload.around ≤ a.grant →
    ∃ b a', a.allocate payload elements = .ok (b, a') ∧ Suits b payload elements

/-- A request is refused for its layout exactly if the least size of a block around its
payload is more than there can be; else, if it is granted, its block has that size and serves
its payload wherever it lies. Arrays are refused by the same measure. -/
theorem allocate_least (h : payload.Valid) (a : Arena) (elements : Nat) :
    a.Accommodates payload elements ∧
      ∀ element : Layout, element.Valid → ∀ (w : World) (heap : HeapId) (e : Element) (m : Mode)
        (count : Nat) (init : Initializer),
        (w.assemble heap ⟨.array, e, m⟩ element count init).1 = .error (.layoutOverflow count) ↔
          Layout.limit < Layout.around ⟨element.size * count, element.align⟩ := by
  refine ⟨⟨Layout.isLeast_around h.align, allocate_eq_layoutOverflow h elements,
    fun hl hgrant => ?_, fun hl hgrant => ?_⟩, fun element he w heap e m count init =>
      assemble_eq_layoutOverflow he w heap e m count init⟩
  · rw [allocate_eq h, if_pos hl, if_pos hgrant]
  · refine ⟨blockAt (roundUp a.next payload.outer) payload elements, _,
      by rw [allocate_eq h, if_pos hl, if_neg (Nat.not_lt.mpr hgrant)], ?_⟩
    exact
      { size := rfl
        align := rfl
        payloadSize := rfl
        elements := rfl
        based := dvd_roundUp (Layout.align_pos (Layout.outer_pow h.align))
        serves := fun base hbase htop => serves_blockAt h hl hbase htop elements }

/-- A payload aligned to 64 bytes starts 64 bytes behind the base, and its block has 128. -/
theorem allocate_least_wide :
    Layout.Valid ⟨40, 64⟩ ∧ IsLeast { size | Layout.FitsIn ⟨40, 64⟩ size } 128 ∧
      ∃ b a', (fresh 4096).allocate ⟨40, 64⟩ 1 = .ok (b, a') ∧ b.size = 128 ∧
        { b with base := 192 }.Serves ⟨40, 64⟩ := by
  have hvalid : Layout.Valid ⟨40, 64⟩ := ⟨⟨6, by decide, rfl⟩, by decide⟩
  have hroom := (allocate_least hvalid (fresh 4096) 1).1
  obtain ⟨b, a', hb, hsuits⟩ := hroom.granted (by decide) (by decide)
  have hserves := hsuits.serves 192 (by decide) (by rw [hsuits.size]; decide)
  exact ⟨hvalid, hroom.least, b, a', hb, hsuits.size, hserves⟩

/-- One byte decides: the largest payload of bytes, and the smallest that is refused. -/
example : (fresh 4096).allocate ⟨9223372036854775752, 1⟩ 1 =
      .error (.allocationFailed 9223372036854775800 8) ∧
    (fresh 4096).allocate ⟨9223372036854775753, 1⟩ 1 = .error (.layoutOverflow 1) := by decide

end Arena

end Custody

import Custody.Proofs.Heap.Ranges

/-! The headers of blocks in memory, and the links from one to another. A header can be
read, written and given back only as long as its block is allocated. The walk along the
links gives back each block that it comes to; it ends in any case, since the memory has
one block less after every turn, but it fails if a link leads to a block that has gone
back. Where the links lead through blocks at different addresses, it does not fail and
gives back just these, in their order. -/

namespace Custody

/-- The words of a header; the last is the base of another block, if it links to one. -/
structure Header where
  layout : Layout
  offset : Nat
  payloadSize : Nat
  elements : Nat
  link : Option Nat
  deriving DecidableEq, Repr

/-- The header as it stands in memory. -/
def Header.bytes (h : Header) : List UInt8 :=
  [h.layout.size, h.layout.align, h.offset, h.payloadSize, h.elements, h.link.getD 0].flatMap
    (littleEndian 8)

/-- The header of a block that links to another. -/
def Block.linking (b : Block) (link : Option Nat) : Header :=
  ⟨b.layout, b.offset, b.payloadSize, b.elements, link⟩

/-- What the allocator is told of a block that goes back: where it starts, and its layout. -/
def Block.receipt (b : Block) : Nat × Layout := (b.base, b.layout)

/-- The headers of the blocks that are allocated, by base. -/
structure Memory where
  headers : List (Nat × Header)
  deriving DecidableEq, Repr

namespace Memory

variable {m n : Memory} {a : Nat} {h : Header}

def empty : Memory := ⟨[]⟩

def find? (m : Memory) (a : Nat) : Option Header := m.headers.lookup a

def erase (m : Memory) (a : Nat) : Memory := ⟨m.headers.filter (·.1 ≠ a)⟩

def write (m : Memory) (a : Nat) (h : Header) : Memory := ⟨(a, h) :: (m.erase a).headers⟩

/-- Writes the link of a header. -/
def setLink (m : Memory) (a : Nat) (link : Option Nat) : Option Memory :=
  (m.find? a).map fun h => m.write a { h with link := link }

/-- Takes the link out of a header. -/
def takeLink (m : Memory) (a : Nat) : Option (Option Nat × Memory) :=
  (m.find? a).map fun h => (h.link, m.write a { h with link := none })

/-- Gives a block back to the allocator, under the layout that its header tells. -/
def giveBack (m : Memory) (a : Nat) : Option (Layout × Memory) :=
  (m.find? a).map fun h => (h.layout, m.erase a)

/-- One turn of the walk: the link comes out of the header, then the block goes back. -/
def turn (m : Memory) (a : Nat) : Option (Option Nat × Layout × Memory) := do
  let (next, m) ← m.takeLink a
  let (layout, m) ← m.giveBack a
  return (next, layout, m)

/-! ### Reading and writing -/

theorem find?_erase (m : Memory) (a b : Nat) :
    (m.erase a).find? b = if b = a then none else m.find? b := by
  obtain ⟨l⟩ := m
  simp only [erase, find?]
  induction l with
  | nil => simp
  | cons x l ih =>
    obtain ⟨c, h⟩ := x
    by_cases hc : c = a
    · rw [List.filter_cons_of_neg (by simpa using hc), ih, List.lookup_cons]
      split_ifs with hb
      · rfl
      · rw [beq_false_of_ne (by rw [hc]; exact hb)]
    · rw [List.filter_cons_of_pos (by simpa using hc), List.lookup_cons, List.lookup_cons, ih]
      by_cases hb : b = c
      · simp [hb, hc]
      · simp [beq_false_of_ne hb]

theorem find?_write (m : Memory) (a : Nat) (h : Header) (b : Nat) :
    (m.write a h).find? b = if b = a then some h else m.find? b := by
  have herase := find?_erase m a b
  simp only [find?, write, List.lookup_cons] at herase ⊢
  by_cases hb : b = a
  · simp [hb]
  · rw [beq_false_of_ne hb, if_neg hb]
    simpa [hb] using herase

theorem erase_write (m : Memory) (a : Nat) (h : Header) : (m.write a h).erase a = m.erase a := by
  simp [erase, write]

/-- A turn of the walk finds the block allocated, or fails. -/
theorem turn_eq (m : Memory) (a : Nat) :
    m.turn a = (m.find? a).map fun h => (h.link, h.layout, m.erase a) := by
  unfold turn takeLink giveBack
  cases m.find? a with
  | none => rfl
  | some h => simp [find?_write, erase_write]

theorem length_erase_lt (hf : m.find? a = some h) :
    (m.erase a).headers.length < m.headers.length := by
  refine List.length_filter_lt_length_iff_exists.mpr ?_
  obtain ⟨l⟩ := m
  simp only [find?] at hf
  obtain ⟨l₁, l₂, rfl, -⟩ := List.lookup_eq_some_iff.mp hf
  exact ⟨(a, h), by simp, by simp⟩

theorem length_turn_lt {next : Option Nat} {layout : Layout}
    (ht : m.turn a = some (next, layout, n)) : n.headers.length < m.headers.length := by
  rw [turn_eq] at ht
  obtain ⟨h, hf, he⟩ := Option.map_eq_some_iff.mp ht
  cases he
  exact length_erase_lt hf

/-! ### Walking -/

/-- Follows the links from `cursor` and gives back every block on the way: what the
allocator is told, and what is left. -/
def sweep (m : Memory) (cursor : Option Nat) : Option (List (Nat × Layout) × Memory) :=
  match cursor with
  | none => some ([], m)
  | some a =>
    match _h : m.turn a with
    | none => none
    | some (next, layout, n) => (n.sweep next).map fun r => ((a, layout) :: r.1, r.2)
termination_by m.headers.length
decreasing_by exact length_turn_lt _h

theorem sweep_some (hf : m.find? a = some h) :
    m.sweep (some a) = ((m.erase a).sweep h.link).map fun r => ((a, h.layout) :: r.1, r.2) := by
  have ht : m.turn a = some (h.link, h.layout, m.erase a) := by simp [turn_eq, hf]
  rw [sweep]
  split
  · rename_i hn
    rw [ht] at hn
    cases hn
  · rename_i hn
    rw [ht] at hn
    cases hn
    rfl

/-- The links lead from `head` through the headers of some blocks, and end there. -/
def Leads (m : Memory) : Option Nat → List Block → Prop
  | head, [] => head = none
  | head, b :: bs => head = some b.base ∧
      ∃ link, m.find? b.base = some (b.linking link) ∧ m.Leads link bs

/-- Links are read off the headers on the way alone. -/
theorem Leads.congr {bs : List Block} {head : Option Nat} (hl : m.Leads head bs)
    (h : ∀ b ∈ bs, n.find? b.base = m.find? b.base) : n.Leads head bs := by
  induction bs generalizing head with
  | nil => exact hl
  | cons b bs ih =>
    obtain ⟨rfl, link, hf, hn⟩ := hl
    refine ⟨rfl, link, ?_, ih hn fun c hc => h c (List.mem_cons_of_mem b hc)⟩
    rw [h b List.mem_cons_self, hf]

theorem Leads.head_eq {bs : List Block} {head : Option Nat} (hl : m.Leads head bs) :
    head = bs.head?.map Block.base := by
  cases bs with
  | nil => exact hl
  | cons b bs => exact hl.1

def eraseAll (m : Memory) (as : List Nat) : Memory := as.foldl erase m

theorem find?_eraseAll (m : Memory) (as : List Nat) (b : Nat) :
    (m.eraseAll as).find? b = if b ∈ as then none else m.find? b := by
  induction as generalizing m with
  | nil => simp [eraseAll]
  | cons a as ih =>
    have hcons : m.eraseAll (a :: as) = (m.erase a).eraseAll as := rfl
    rw [hcons, ih, find?_erase]
    by_cases hb : b = a <;> simp [hb]

/-- The walk gives back every block on its way, in the order of the links, and leaves the
others as they are. -/
theorem Leads.sweep_eq {bs : List Block} {head : Option Nat} (hl : m.Leads head bs)
    (hn : (bs.map Block.base).Nodup) :
    m.sweep head = some (bs.map Block.receipt, m.eraseAll (bs.map Block.base)) := by
  induction bs generalizing m head with
  | nil =>
    obtain rfl : head = none := hl
    rw [sweep]
    rfl
  | cons b bs ih =>
    obtain ⟨rfl, link, hf, hrest⟩ := hl
    rw [List.map_cons, List.nodup_cons] at hn
    have hleft : (m.erase b.base).Leads link bs := by
      refine hrest.congr fun c hc => ?_
      have hne : c.base ≠ b.base := fun he => hn.1 (he ▸ List.mem_map_of_mem hc)
      rw [find?_erase, if_neg hne]
    calc m.sweep (some b.base)
        = ((m.erase b.base).sweep link).map fun r => (b.receipt :: r.1, r.2) := sweep_some hf
      _ = some ((b :: bs).map Block.receipt, m.eraseAll ((b :: bs).map Block.base)) := by
        rw [ih hleft hn.2]
        rfl

/-- The headers that the links lead through are those that are read in the kept blocks. -/
theorem Leads.read {bs : List Block} {head : Option Nat} (hl : m.Leads head bs)
    (ha : bs.Pairwise Block.Separate) {b : Block} (hb : b ∈ bs) :
    ∃ h, m.find? b.base = some h ∧ ∀ i, i < Block.header.size → i < b.size →
      Quarantine.byteIn (b.base + i) bs = h.bytes[i]? := by
  induction bs generalizing head with
  | nil => cases hb
  | cons c bs ih =>
    obtain ⟨-, link, hf, hrest⟩ := hl
    obtain ⟨hc, ha⟩ := List.pairwise_cons.mp ha
    obtain rfl | hb := List.mem_cons.mp hb
    · refine ⟨_, hf, fun i hi hsize => ?_⟩
      have hcovers : b.covers (b.base + i) = true := Block.covers_iff.mpr (by omega)
      rw [Quarantine.byteIn, if_pos hcovers, Nat.add_sub_cancel_left, Block.byte?, if_pos hi,
        ← hrest.head_eq]
      rfl
    · obtain ⟨h, hfind, hread⟩ := ih hrest ha hb
      refine ⟨h, hfind, fun i hi hsize => ?_⟩
      have hcovers : b.covers (b.base + i) = true := Block.covers_iff.mpr (by omega)
      rw [Quarantine.byteIn, (hc b hb).symm.not_covers hcovers, if_neg Bool.false_ne_true]
      exact hread i hi hsize

end Memory

end Custody

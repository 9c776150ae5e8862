import Custody.Proofs.Heap.Lawful

/-! A quarantine as it lies in memory. All that it holds of its blocks is the base of the
latest; the header of each kept block links to the one that was kept before it. To empty
the quarantine, the links are followed. Nothing in the headers keeps a link from leading to
a block that has gone back, or round in a circle. But if the program hands in only blocks
that are its own, and the allocator grants none that overlaps one in use or one kept, the
links lead through the kept blocks, the latest first, and no further. Main result:
`links_intact`. -/

namespace Custody

open Quarantine (Transfer InUse Spread asked Owned entered)

/-! ### In memory -/

/-- A quarantine, with the memory around it. -/
structure LinkedQuarantine where
  memory : Memory
  /-- The base of the latest block. -/
  head : Option Nat
  count : Nat
  bytes : Nat
  detecting : Bool
  index : RangeIndex
  /-- What the allocator was told of blocks that were let go. -/
  returned : List (Nat × Layout)
  deriving DecidableEq, Repr

namespace LinkedQuarantine

def empty (detecting : Bool) : LinkedQuarantine := ⟨.empty, none, 0, 0, detecting, .empty, []⟩

/-- Takes in the block at `base`; it links to the one that was the latest. -/
def push (y : LinkedQuarantine) (base : Nat) : Option LinkedQuarantine := do
  let h ← y.memory.find? base
  let memory ← y.memory.setLink base y.head
  return { y with
    memory := memory
    head := some base
    count := y.count + 1
    bytes := y.bytes + h.layout.size
    index := if y.detecting then y.index.insert base h.layout.size else y.index }

/-- Lets every block go; how many there were. It fails if these are not as many as were
counted. -/
def reclaim (y : LinkedQuarantine) : Option (Nat × LinkedQuarantine) := do
  let (freed, memory) ← y.memory.sweep y.head
  guard (freed.length = y.count)
  return (freed.length, ⟨memory, none, 0, 0, y.detecting, .empty, y.returned ++ freed⟩)

/-- Switches detection; the former setting. Refused while ranges are recorded. -/
def setDetecting (y : LinkedQuarantine) (on : Bool) :
    Except HeapRefusal (Bool × LinkedQuarantine) :=
  if y.index.size = 0 then .ok (y.detecting, { y with detecting := on })
  else .error (.detectionPinned y.index.size)

/-- What becomes of it. Where a header is wanted that is not allocated, this fails. -/
def obey (y : LinkedQuarantine) : Transfer → Option LinkedQuarantine
  | .grant b => some { y with memory := y.memory.write b.base (b.linking none) }
  | .free b => (y.memory.giveBack b.base).map fun r => { y with memory := r.2 }
  | .ask (.push b) => y.push b.base
  | .ask .reclaim => y.reclaim.map Prod.snd
  | .ask (.setDetecting on) =>
    match y.setDetecting on with
    | .ok (_, z) => some z
    | .error _ => some y

def obeyAll (y : LinkedQuarantine) (es : List Transfer) : Option LinkedQuarantine :=
  es.foldlM obey y

theorem obeyAll_concat (y : LinkedQuarantine) (es : List Transfer) (e : Transfer) :
    y.obeyAll (es ++ [e]) = (y.obeyAll es).bind (·.obey e) := by
  simp [obeyAll, List.foldlM_append]

/-! ### The invariant -/

variable {y : LinkedQuarantine} {q : Quarantine} {used : Block → Prop} {ins : List Block}
  {b c : Block}

/-- What lies in memory is `q`: the links lead from the head through its blocks, none of
which overlaps another. -/
structure Represents (y : LinkedQuarantine) (q : Quarantine) : Prop where
  leads : y.memory.Leads y.head q.blocks
  apart : q.blocks.Pairwise Block.Separate
  count : y.count = q.count
  bytes : y.bytes = q.bytes
  detecting : y.detecting = q.detecting
  index : y.index = q.index

/-- The memory holds the headers of the blocks in use and of those kept, and of no others.
Of the blocks that came in, each is kept or was returned. -/
structure Stores (y : LinkedQuarantine) (q : Quarantine) (used : Block → Prop) (ins : List Block) :
    Prop extends y.Represents q where
  counted : q.count = q.blocks.length
  unlinked : ∀ b, used b → y.memory.find? b.base = some (b.linking none)
  occupied : ∀ a h, y.memory.find? a = some h →
    (∃ b, used b ∧ b.base = a) ∨ ∃ b ∈ q.blocks, b.base = a
  account : (y.returned ++ q.blocks.map Block.receipt).Perm (ins.map Block.receipt)

theorem stores_empty (d : Bool) : (empty d).Stores (.empty d) (fun _ => False) [] where
  leads := rfl
  apart := List.Pairwise.nil
  count := rfl
  bytes := rfl
  detecting := rfl
  index := rfl
  counted := rfl
  unlinked _ h := h.elim
  occupied _ _ h := by cases h
  account := List.Perm.nil

theorem Stores.congr {used' : Block → Prop} (h : y.Stores q used ins) (hu : ∀ b, used' b ↔ used b) :
    y.Stores q used' ins := by
  obtain rfl : used' = used := funext fun b => propext (hu b)
  exact h

theorem Represents.nodup (h : y.Represents q) : (q.blocks.map Block.base).Nodup :=
  List.pairwise_map.mpr (h.apart.imp And.left)

theorem Stores.grant (h : y.Stores q used ins) (hused : ∀ c, used c → b.Separate c)
    (hroom : q.HasRoom b) :
    ∃ z, y.obey (.grant b) = some z ∧ z.Stores q (fun c => b = c ∨ used c) ins := by
  refine ⟨_, rfl, ⟨⟨h.leads.congr fun c hc => ?_, h.apart, h.count, h.bytes, h.detecting, h.index⟩,
    h.counted, fun c hc => ?_, fun a header hf => ?_, h.account⟩⟩
  · rw [Memory.find?_write, if_neg (hroom c hc).1.symm]
  · rw [Memory.find?_write]
    obtain rfl | hc := hc
    · exact if_pos rfl
    · rw [if_neg (hused c hc).1.symm, h.unlinked c hc]
  · rw [Memory.find?_write] at hf
    split_ifs at hf with ha
    · exact .inl ⟨b, .inl rfl, ha.symm⟩
    · exact (h.occupied a header hf).imp_left fun ⟨c, hc, he⟩ => ⟨c, .inr hc, he⟩

/-- A block that leaves the hands of the program is at another address than those that
stay in use. -/
theorem base_ne_of_not_sameRange (hcb : c.SameHeader b)
    (hapart : ∀ e, used e → e.SameRange c ∨ e.Separate c) {e : Block}
    (he : ¬ e.SameRange b ∧ used e) : e.base ≠ b.base := by
  have hsep := (hapart e he.2).resolve_left fun hec => he.1 (hec.trans hcb.sameRange)
  rw [← hcb.1]
  exact hsep.1

theorem Stores.free (h : y.Stores q used ins) (hc : used c) (hcb : c.SameHeader b)
    (hapart : ∀ e, used e → e.SameRange c ∨ e.Separate c) (hroom : q.HasRoom c) :
    ∃ z, y.obey (.free b) = some z ∧ z.Stores q (fun e => ¬ e.SameRange b ∧ used e) ins := by
  have hfind : y.memory.find? b.base = some (c.linking none) := hcb.1 ▸ h.unlinked c hc
  refine ⟨{ y with memory := y.memory.erase b.base }, ?_, ⟨⟨h.leads.congr fun e he => ?_, h.apart,
    h.count, h.bytes, h.detecting, h.index⟩, h.counted, fun e he => ?_, fun a header hf => ?_,
      h.account⟩⟩
  · simp [obey, Memory.giveBack, hfind]
  · rw [Memory.find?_erase, if_neg fun heq => (hroom e he).1 (hcb.1.trans heq.symm)]
  · rw [Memory.find?_erase, if_neg (base_ne_of_not_sameRange hcb hapart he), h.unlinked e he.2]
  · rw [Memory.find?_erase] at hf
    split_ifs at hf with ha
    obtain ⟨e, he, rfl⟩ | hkept := h.occupied a header hf
    · exact .inl ⟨e, ⟨fun hr => ha hr.1, he⟩, rfl⟩
    · exact .inr hkept

theorem Stores.push (h : y.Stores q used ins) (hc : used c) (hcb : c.SameHeader b)
    (hapart : ∀ e, used e → e.SameRange c ∨ e.Separate c) (hroom : q.HasRoom c) :
    ∃ z, y.obey (.ask (.push b)) = some z ∧
      z.Stores (q.push b) (fun e => ¬ e.SameRange b ∧ used e) (ins ++ [b]) := by
  have hfind : y.memory.find? b.base = some (b.linking none) := by
    rw [← hcb.linking_eq, ← hcb.1]
    exact h.unlinked c hc
  have hpush : y.obey (.ask (.push b)) = some { y with
      memory := y.memory.write b.base (b.linking y.head)
      head := some b.base
      count := y.count + 1
      bytes := y.bytes + b.size
      index := if y.detecting then y.index.insert b.base b.size else y.index } := by
    simp [obey, LinkedQuarantine.push, Memory.setLink, hfind, Block.linking, Block.size]
  have hsep : q.HasRoom b := fun e he => hcb.sameRange.separate (hroom e he)
  refine ⟨_, hpush, ⟨⟨⟨rfl, y.head, ?_, h.leads.congr fun e he => ?_⟩,
    List.pairwise_cons.mpr ⟨hsep, h.apart⟩, ?_, ?_, h.detecting, ?_⟩, ?_, fun e he => ?_,
    fun a header hf => ?_, ?_⟩⟩
  · rw [Memory.find?_write, if_pos rfl]
  · rw [Memory.find?_write, if_neg (hsep e he).1.symm]
  · exact congrArg (· + 1) h.count
  · exact congrArg (· + b.size) h.bytes
  · simp only [Quarantine.push, h.detecting, h.index]
  · exact congrArg (· + 1) h.counted
  · rw [Memory.find?_write, if_neg (base_ne_of_not_sameRange hcb hapart he), h.unlinked e he.2]
  · rw [Memory.find?_write] at hf
    split_ifs at hf with ha
    · exact .inr ⟨b, List.mem_cons_self, ha.symm⟩
    · obtain ⟨e, he, rfl⟩ | ⟨e, he, hea⟩ := h.occupied a header hf
      · exact .inl ⟨e, ⟨fun hr => ha hr.1, he⟩, rfl⟩
      · exact .inr ⟨e, List.mem_cons_of_mem b he, hea⟩
  · rw [List.map_append]
    exact List.perm_middle.trans
      ((h.account.cons b.receipt).trans (List.perm_append_singleton _ _).symm)

/-- To empty a quarantine gives back each of its blocks, the latest first. -/
theorem Stores.reclaim (h : y.Stores q used ins) (hroom : ∀ b, used b → q.HasRoom b) :
    ∃ z, y.reclaim = some (y.count, z) ∧ z.returned = y.returned ++ q.blocks.map Block.receipt ∧
      z.Stores q.reclaim.2 used ins := by
  have hsweep := h.leads.sweep_eq h.nodup
  have hlength : (q.blocks.map Block.receipt).length = y.count := by
    rw [List.length_map, h.count, h.counted]
  have hreclaim :
      y.reclaim = some (y.count, ⟨y.memory.eraseAll (q.blocks.map Block.base), none, 0, 0,
      y.detecting, .empty, y.returned ++ q.blocks.map Block.receipt⟩) := by
    rw [LinkedQuarantine.reclaim, hsweep]
    simp [hlength]
  refine ⟨_, hreclaim, rfl, ⟨⟨rfl, List.Pairwise.nil, rfl, rfl, h.detecting, rfl⟩, rfl,
    fun b hb => ?_, fun a header hf => ?_, ?_⟩⟩
  · have hnot : b.base ∉ q.blocks.map Block.base := by
      rw [List.mem_map]
      rintro ⟨e, he, heq⟩
      exact (hroom b hb e he).1 heq.symm
    rw [Memory.find?_eraseAll, if_neg hnot, h.unlinked b hb]
  · rw [Memory.find?_eraseAll] at hf
    split_ifs at hf with ha
    obtain hb | ⟨e, he, hea⟩ := h.occupied a header hf
    · exact .inl hb
    · exact absurd (List.mem_map.mpr ⟨e, he, hea⟩) ha
  · simpa [Quarantine.reclaim, Quarantine.empty] using h.account

theorem Stores.setDetecting (h : y.Stores q used ins) (on : Bool) :
    ∃ z, y.obey (.ask (.setDetecting on)) = some z ∧
      z.Stores (q.obey (.setDetecting on)) used ins := by
  by_cases h0 : q.index.size = 0
  · have hq : q.obey (.setDetecting on) = { q with detecting := on } := by
      simp [Quarantine.obey, Quarantine.setDetecting, h0]
    refine ⟨{ y with detecting := on }, ?_, ?_⟩
    · simp [obey, LinkedQuarantine.setDetecting, h.index, h0]
    · rw [hq]
      exact ⟨⟨h.leads, h.apart, h.count, h.bytes, rfl, h.index⟩, h.counted, h.unlinked, h.occupied,
        h.account⟩
  · have hq : q.obey (.setDetecting on) = q := by
      simp [Quarantine.obey, Quarantine.setDetecting, h0]
    refine ⟨y, ?_, hq.symm ▸ h⟩
    simp [obey, LinkedQuarantine.setDetecting, h.index, h0]

/-- One step: a block that is granted lies apart from all others, and one that goes back or
comes in is in use. -/
theorem Stores.step (h : y.Stores q used ins) {e : Transfer}
    (hgrant : ∀ b, e = .grant b → (∀ c, used c → b.Separate c) ∧ q.HasRoom b)
    (hown : ∀ b, e = .free b ∨ e = .ask (.push b) → ∃ c, used c ∧ c.SameHeader b)
    (hapart : ∀ b c, used b → used c → b.SameRange c ∨ b.Separate c)
    (hkept : ∀ b, used b → q.HasRoom b) :
    ∃ z, y.obey e = some z ∧ z.Stores (q.obeyAll e.request?.toList)
      (fun b => e = .grant b ∨ (¬ e.Surrenders b ∧ used b)) (ins ++ e.entering?.toList) := by
  cases e with
  | grant b =>
    obtain ⟨hsep, hroom⟩ := hgrant b rfl
    obtain ⟨z, hz, hs⟩ := h.grant hsep hroom
    exact ⟨z, hz, by simpa [Transfer.request?, Transfer.entering?, Transfer.Surrenders] using hs⟩
  | free b =>
    obtain ⟨c, hc, hcb⟩ := hown b (.inl rfl)
    obtain ⟨z, hz, hs⟩ := h.free hc hcb (fun e he => hapart e c he hc) (hkept c hc)
    exact ⟨z, hz, by simpa [Transfer.request?, Transfer.entering?, Transfer.Surrenders] using hs⟩
  | ask r =>
    cases r with
    | push b =>
      obtain ⟨c, hc, hcb⟩ := hown b (.inr rfl)
      obtain ⟨z, hz, hs⟩ := h.push hc hcb (fun e he => hapart e c he hc) (hkept c hc)
      refine ⟨z, hz, ?_⟩
      simpa [Transfer.request?, Transfer.entering?, Transfer.Surrenders, Quarantine.obey] using hs
    | reclaim =>
      obtain ⟨z, hz, -, hs⟩ := h.reclaim hkept
      refine ⟨z, by simp [obey, hz], ?_⟩
      simpa [Transfer.request?, Transfer.entering?, Transfer.Surrenders, Quarantine.obey] using hs
    | setDetecting on =>
      obtain ⟨z, hz, hs⟩ := h.setDetecting on
      exact ⟨z, hz, by simpa [Transfer.request?, Transfer.entering?, Transfer.Surrenders] using hs⟩

/-- On every run in which the program owns what it hands in, no header is missing. -/
theorem stores_obeyAll {d : Bool} {es : List Transfer} (h : Owned d es) :
    ∃ y, (empty d).obeyAll es = some y ∧
      y.Stores ((Quarantine.empty d).obeyAll (asked es)) (InUse es) (entered es) := by
  induction es using List.reverseRecOn with
  | nil => exact ⟨_, rfl, (stores_empty d).congr fun b => iff_of_false not_lastedSince_nil id⟩
  | append_singleton es e ih =>
    obtain ⟨h, hfair, hown⟩ := Quarantine.owned_concat.mp h
    obtain ⟨y, hy, hs⟩ := ih h
    have hspread : Spread d es := h.toFair.spread
    obtain ⟨z, hz, hs⟩ :=
      hs.step (Quarantine.fair_concat.mp hfair).2.1 hown hspread.apart hspread.kept
    refine ⟨z, by rw [obeyAll_concat, hy, Option.bind_some, hz], ?_⟩
    rw [Quarantine.asked_concat, Quarantine.obeyAll_append, Quarantine.entered_concat]
    exact hs.congr fun b => Quarantine.inUse_concat

/-! ### Integrity -/

/-- What lies in memory is as `listed` tells, the blocks that came in since the quarantine was last
emptied, the latest first, each with whether detection was on then. -/
structure Holds (y : LinkedQuarantine) (q : Quarantine) (listed : List (Block × Bool)) : Prop where
  represents : y.Represents q
  leads : y.memory.Leads y.head (listed.map Prod.fst)
  nodup : (listed.map fun p => p.1.base).Nodup
  count : y.count = listed.length
  bytes : y.bytes = (listed.map fun p => p.1.size).sum
  recorded : y.index.size = listed.countP Prod.snd
  /-- What is read in these blocks tells the headers. -/
  read : ∀ p ∈ listed, ∃ header, y.memory.find? p.1.base = some header ∧
    ∀ i, i < Block.header.size → i < p.1.size → q.byte? (p.1.base + i) = header.bytes[i]?

/-- Emptying `y` leads to `z`: all blocks in `listed` go back, and with this each block in `ins` has
gone back once. -/
structure EmptiesTo (y : LinkedQuarantine) (q : Quarantine) (listed : List (Block × Bool))
    (used : Block → Prop) (ins : List Block) (z : LinkedQuarantine) : Prop where
  reclaim : y.reclaim = some (y.count, z)
  represents : z.Represents (.empty q.detecting)
  returned : z.returned = y.returned ++ listed.map (fun p => p.1.receipt)
  account : z.returned.Perm (ins.map Block.receipt)
  /-- Just the blocks in use are allocated. -/
  allocated : ∀ a, (∃ header, z.memory.find? a = some header) ↔ ∃ b, used b ∧ b.base = a

theorem Stores.holds {listed : List (Block × Bool)} (h : y.Stores q used ins)
    (hl : q.Lists listed) : y.Holds q listed where
  represents := h.toRepresents
  leads := hl.blocks ▸ h.leads
  nodup := by
    have hnodup := h.nodup
    rwa [hl.blocks, List.map_map] at hnodup
  count := h.count.trans hl.count
  bytes := h.bytes.trans hl.bytes
  recorded := (congrArg RangeIndex.size h.index).trans hl.recorded
  read p hp := h.leads.read h.apart (hl.blocks ▸ List.mem_map_of_mem hp)

theorem Stores.empties {listed : List (Block × Bool)} (h : y.Stores q used ins)
    (hl : q.Lists listed) (hkept : ∀ b, used b → q.HasRoom b) :
    ∃ z, y.EmptiesTo q listed used ins z := by
  obtain ⟨z, hz, hreturned, hempty⟩ := h.reclaim hkept
  rw [hl.blocks, List.map_map] at hreturned
  refine ⟨z, hz, hempty.toRepresents, hreturned, ?_, fun a => ⟨?_, ?_⟩⟩
  · simpa [Quarantine.reclaim, Quarantine.empty] using hempty.account
  · rintro ⟨header, hf⟩
    exact (hempty.occupied a header hf).resolve_right
      (by simp [Quarantine.reclaim, Quarantine.empty])
  · rintro ⟨b, hb, rfl⟩
    exact ⟨_, hempty.unlinked b hb⟩

end LinkedQuarantine

/-- Whatever is granted, handed in and let go, no header is wanted that is not allocated. The
links from the head lead through the blocks that came in since the quarantine was last
emptied, the latest first, each at an address of its own, and end there; what is read in
these blocks tells the links. Their number, their size and the number of ranges recorded
are as counted. To empty the quarantine comes to an end, answers the number of blocks,
gives back each of them, and leaves an empty one. So in the end each block that came in has
been given back once, and just the blocks in use are allocated. -/
theorem links_intact {d : Bool} {es : List Transfer} (h : Owned d es) :
    let q := (Quarantine.empty d).obeyAll (asked es)
    let listed := (Quarantine.empty d).listing [] (asked es)
    q.reclaim = (listed.map Prod.fst, .empty q.detecting) ∧
      ∃ y z, (LinkedQuarantine.empty d).obeyAll es = some y ∧ y.Holds q listed ∧
        y.EmptiesTo q listed (InUse es) (entered es) z := by
  intro q listed
  obtain ⟨y, hy, hs⟩ := LinkedQuarantine.stores_obeyAll h
  have hspread : Spread d es := h.toFair.spread
  have hlists : q.Lists listed := Quarantine.lists_obeyAll hspread.admits
  obtain ⟨z, hz⟩ := hs.empties hlists hspread.kept
  refine ⟨?_, y, z, hy, hs.holds hlists, hz⟩
  rw [← hlists.blocks]
  rfl

/-- Two blocks are granted. The first comes in and is let go; when its memory has been
granted again, the second comes in, and then the first once more. -/
def recurring : List Transfer :=
  [.grant (smallBlock 4096), .grant (smallBlock 4160), .ask (.push (smallBlock 4096)),
    .ask .reclaim, .grant (smallBlock 4096), .ask (.push (smallBlock 4160)),
    .ask (.push (smallBlock 4096))]

theorem owned_recurring : Owned true recurring := Quarantine.owned_iff_lawful.mpr (by decide)

/-- The list goes from the first block to the second. Emptying the quarantine gives back
both, and so the first has been given back twice in all, as often as it came in. -/
theorem links_recurring : Owned true recurring ∧
    ∃ y, (LinkedQuarantine.empty true).obeyAll recurring = some y ∧
      y.memory.Leads y.head [smallBlock 4096, smallBlock 4160] ∧ y.index.size = 2 ∧
      ∃ z, y.reclaim = some (2, z) ∧
        z.returned = y.returned ++ [(4096, ⟨64, 8⟩), (4160, ⟨64, 8⟩)] ∧
        z.returned.Perm [(4096, ⟨64, 8⟩), (4160, ⟨64, 8⟩), (4096, ⟨64, 8⟩)] := by
  obtain ⟨-, y, z, hy, hholds, hempties⟩ := links_intact owned_recurring
  have hcount : y.count = 2 := hholds.count
  have hreclaim := hempties.reclaim
  rw [hcount] at hreclaim
  exact ⟨owned_recurring, y, hy, hholds.leads, hholds.recorded, z, hreclaim, hempties.returned,
    hempties.account⟩

end Custody

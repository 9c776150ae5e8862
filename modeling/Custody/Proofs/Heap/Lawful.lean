import Custody.Proofs.Heap.Detection
import Custody.Proofs.Heap.Headers

/-! Transfers around a quarantine that respect whose a block is: what goes back to the
allocator or comes in is in the hands of the program until then, and what is granted lies
apart from all that is in its hands or kept. Whether a run is of this kind is decided step
by step. Beside it, what a run leaves in the quarantine, with the number of ranges that are
recorded. -/

namespace Custody

/-! ### Whose a block is -/

instance (b c : Block) : Decidable (b.SameRange c) := inferInstanceAs (Decidable (_ ∧ _))

/-- The headers of two blocks are at one address and tell the same. -/
def Block.SameHeader (b c : Block) : Prop := b.base = c.base ∧ b.linking none = c.linking none

instance (b c : Block) : Decidable (b.SameHeader c) := inferInstanceAs (Decidable (_ ∧ _))

theorem Block.SameHeader.linking_eq {b c : Block} (h : b.SameHeader c) (link : Option Nat) :
    b.linking link = c.linking link := congrArg (fun header => { header with link := link }) h.2

theorem Block.SameHeader.sameRange {b c : Block} (h : b.SameHeader c) : b.SameRange c :=
  ⟨h.1, congrArg (·.layout.size) h.2⟩

namespace Quarantine

/-- The allocator is fair, and the blocks that go back to it or come in are in use until
then, under the header that they were granted with. -/
structure Owned (d : Bool) (es : List Transfer) : Prop extends Fair d es where
  surrendered : ∀ before e after, es = before ++ e :: after →
    ∀ b, e = .free b ∨ e = .ask (.push b) → ∃ c, InUse before c ∧ c.SameHeader b

variable {d : Bool} {es : List Transfer} {e : Transfer}

theorem owned_nil : Owned d [] := ⟨fair_nil, fun _ _ _ h => by simp at h⟩

theorem owned_concat : Owned d (es ++ [e]) ↔ Owned d es ∧ Fair d (es ++ [e]) ∧
    ∀ b, e = .free b ∨ e = .ask (.push b) → ∃ c, InUse es c ∧ c.SameHeader b := by
  constructor
  · intro h
    obtain ⟨hsurrendered, hown⟩ := forall_division_concat.mp h.surrendered
    exact ⟨⟨(fair_concat.mp h.toFair).1, hsurrendered⟩, h.toFair, hown⟩
  · rintro ⟨h, hfair, hown⟩
    exact ⟨hfair, forall_division_concat.mpr ⟨h.surrendered, hown⟩⟩

/-- The blocks in the hands of the program after a transfer. -/
def Transfer.hold (hand : List Block) : Transfer → List Block
  | .grant b => b :: hand
  | .free b | .ask (.push b) => hand.filter fun c => ¬ c.SameRange b
  | .ask .reclaim | .ask (.setDetecting _) => hand

theorem inUse_iff_mem {b : Block} : InUse es b ↔ b ∈ es.foldl Transfer.hold [] := by
  induction es using List.reverseRecOn with
  | nil => simp [InUse, not_lastedSince_nil]
  | append_singleton es e ih =>
    rw [inUse_concat, ih, List.foldl_append, List.foldl_cons, List.foldl_nil]
    cases e with
    | grant c => simp [Transfer.Surrenders, Transfer.hold, eq_comm]
    | free c => simp [Transfer.Surrenders, Transfer.hold, and_comm]
    | ask r => cases r <;> simp [Transfer.Surrenders, Transfer.hold, and_comm]

/-- Whether a transfer may come next. -/
def Transfer.Permitted (q : Quarantine) (hand : List Block) : Transfer → Prop
  | .grant b => (∀ c ∈ hand, b.Separate c) ∧ ∀ c ∈ q.blocks, b.Separate c
  | .free b | .ask (.push b) => ∃ c ∈ hand, c.SameHeader b
  | .ask .reclaim | .ask (.setDetecting _) => True

instance (q : Quarantine) (hand : List Block) : DecidablePred (Transfer.Permitted q hand)
  | .grant _ => inferInstanceAs (Decidable (_ ∧ _))
  | .free _ | .ask (.push _) => inferInstanceAs (Decidable (∃ _ ∈ _, _))
  | .ask .reclaim | .ask (.setDetecting _) => .isTrue trivial

/-- Whether each transfer is permitted when it comes. -/
def Lawful (q : Quarantine) (hand : List Block) : List Transfer → Prop
  | [] => True
  | e :: es => e.Permitted q hand ∧ Lawful (q.obeyAll e.request?.toList) (e.hold hand) es

instance Lawful.decidable (q : Quarantine) (hand : List Block) : DecidablePred (Lawful q hand)
  | [] => .isTrue trivial
  | e :: es =>
    have := Lawful.decidable (q.obeyAll e.request?.toList) (e.hold hand) es
    inferInstanceAs (Decidable (_ ∧ _))

theorem lawful_concat {q : Quarantine} {hand : List Block} : Lawful q hand (es ++ [e]) ↔
    Lawful q hand es ∧ e.Permitted (q.obeyAll (asked es)) (es.foldl Transfer.hold hand) := by
  induction es generalizing q hand with
  | nil => simp [Lawful, asked]
  | cons x es ih =>
    have hasked : asked (x :: es) = x.request?.toList ++ asked es := by
      cases x <;> rfl
    rw [List.cons_append, Lawful, Lawful, ih, hasked, obeyAll_append, List.foldl_cons, and_assoc]

theorem owned_iff_lawful : Owned d es ↔ Lawful (empty d) [] es := by
  induction es using List.reverseRecOn with
  | nil => exact iff_of_true owned_nil trivial
  | append_singleton es e ih =>
    rw [owned_concat, fair_concat, lawful_concat, ← ih]
    simp only [inUse_iff_mem]
    refine and_congr_right fun h => ?_
    have hfair : Fair d es := h.toFair
    cases e with
    | grant b => simp [Transfer.Permitted, HasRoom, hfair]
    | free b => simp [Transfer.Permitted, hfair]
    | ask r =>
      cases r with
      | push b =>
        constructor
        · rintro ⟨-, hown⟩
          exact hown b (.inr rfl)
        · rintro ⟨c, hc, hcb⟩
          refine ⟨⟨hfair, nofun, fun b' hb => ?_⟩, fun b' hb => ?_⟩
          · obtain rfl := Request.push.inj (Transfer.ask.inj hb)
            exact ⟨c, hc, hcb.sameRange⟩
          · obtain rfl := Request.push.inj (Transfer.ask.inj (hb.resolve_left nofun))
            exact ⟨c, hc, hcb⟩
      | reclaim | setDetecting on => simp [Transfer.Permitted, hfair]

/-- The block that comes in, if one does. -/
def Transfer.entering? : Transfer → Option Block
  | .ask (.push b) => some b
  | .grant _ | .free _ | .ask .reclaim | .ask (.setDetecting _) => none

/-- All blocks that came in. -/
def entered (es : List Transfer) : List Block := es.filterMap Transfer.entering?

theorem entered_concat : entered (es ++ [e]) = entered es ++ e.entering?.toList := by
  cases h : e.entering? <;> simp [entered, h]

/-! ### What is listed -/

variable {q : Quarantine} {l : List (Block × Bool)} {rs : List Request}

/-- The blocks listed after a request, the latest first, each with whether detection was on
when it came in. -/
def relist (q : Quarantine) (l : List (Block × Bool)) : Request → List (Block × Bool)
  | .push b => (b, q.detecting) :: l
  | .reclaim => []
  | .setDetecting _ => l

def listing (q : Quarantine) (l : List (Block × Bool)) : List Request → List (Block × Bool)
  | [] => l
  | r :: rs => (q.obey r).listing (q.relist l r) rs

theorem listing_concat (rs : List Request) (r : Request) :
    q.listing l (rs ++ [r]) = (q.obeyAll rs).relist (q.listing l rs) r := by
  induction rs generalizing q l with
  | nil => rfl
  | cons s rs ih => exact ih

/-- The blocks kept, their number and size, and the number of ranges recorded. -/
structure Lists (q : Quarantine) (l : List (Block × Bool)) : Prop where
  blocks : q.blocks = l.map Prod.fst
  count : q.count = l.length
  bytes : q.bytes = (l.map fun p => p.1.size).sum
  recorded : q.index.size = l.countP Prod.snd

theorem Lists.push {b : Block} (h : q.Lists l) (hf : RangeIndex.Fits b.base b.size q.index.ranges) :
    (q.push b).Lists ((b, q.detecting) :: l) where
  blocks := congrArg (b :: ·) h.blocks
  count := congrArg (· + 1) h.count
  bytes := by
    rw [List.map_cons, List.sum_cons, ← h.bytes]
    exact Nat.add_comm _ _
  recorded := by
    have hsize : (q.index.insert b.base b.size).size = q.index.size + 1 :=
      (RangeIndex.perm_insertRange hf).length_eq
    cases hd : q.detecting with
    | false => simp [Quarantine.push, hd, h.recorded]
    | true => simp [Quarantine.push, hd, hsize, h.recorded]

theorem Lists.setDetecting (h : q.Lists l) (on : Bool) : (q.obey (.setDetecting on)).Lists l := by
  obtain ⟨-, hs⟩ | ⟨-, hs⟩ := setDetecting_cases (q := q) on
  · simp only [obey, hs]
    exact ⟨h.blocks, h.count, h.bytes, h.recorded⟩
  · simpa only [obey, hs] using h

theorem lists_obeyAll (h : (empty d).Admits rs) :
    ((empty d).obeyAll rs).Lists ((empty d).listing [] rs) := by
  induction rs using List.reverseRecOn with
  | nil => exact ⟨rfl, rfl, rfl, rfl⟩
  | append_singleton rs r ih =>
    have ih := ih h.init
    rw [obeyAll_append, obeyAll_singleton, listing_concat]
    cases r with
    | push b => exact ih.push ((tracks_obeyAll h.init).fits (h rs b [] rfl))
    | reclaim => exact ⟨rfl, rfl, rfl, rfl⟩
    | setDetecting on => exact ih.setDetecting on

end Quarantine

end Custody

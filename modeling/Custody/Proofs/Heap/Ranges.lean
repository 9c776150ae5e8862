import Custody.Quarantine
import Mathlib.Data.List.Basic
import Mathlib.Data.List.Induction

/-! What a quarantine reports, and when its detection can be switched. As long as no block that
comes in overlaps one that is kept, the recorded ranges lie apart in descending order, so that the
last range that starts at or before an address is the only one that can contain it. -/

namespace Custody

/-- No address in common; the blocks may touch. No block is without addresses, so they
start at different ones. -/
def Block.Separate (b c : Block) : Prop :=
  b.base ≠ c.base ∧ (b.base + b.size ≤ c.base ∨ c.base + c.size ≤ b.base)

instance (b c : Block) : Decidable (b.Separate c) := inferInstanceAs (Decidable (_ ∧ _))

theorem Block.Separate.symm {b c : Block} (h : b.Separate c) : c.Separate b := ⟨h.1.symm, h.2.symm⟩

theorem Block.covers_iff {b : Block} {a : Nat} :
    b.covers a = true ↔ b.base ≤ a ∧ a < b.base + b.size := by
  simp [Block.covers]

theorem Block.Separate.not_covers {b c : Block} (h : b.Separate c) {a : Nat}
    (hb : b.covers a = true) : c.covers a = false := by
  rw [Block.covers_iff] at hb
  rw [Bool.eq_false_iff, Ne, Block.covers_iff]
  obtain ⟨-, h | h⟩ := h <;> omega

/-! ### What has lasted -/

/-- In a run, given as a list, `a` came when `P` held of what was before it, and nothing
that ends it came after it. -/
def LastedSince {α : Type} (P : List α → Prop) (a : α) (ends : α → Prop) (run : List α) : Prop :=
  ∃ before after, run = before ++ a :: after ∧ P before ∧ ∀ x ∈ after, ¬ ends x

variable {α : Type} {P : List α → Prop} {a : α} {ends : α → Prop}

/-- What holds wherever a run is divided holds of the run, and where its last step is. -/
theorem forall_division_concat {Q : List α → α → Prop} {run : List α} {x : α} :
    (∀ before y after, run ++ [x] = before ++ y :: after → Q before y) ↔
      (∀ before y after, run = before ++ y :: after → Q before y) ∧ Q run x := by
  constructor
  · intro h
    exact ⟨fun before y after hrun => h before y (after ++ [x]) (by simp [hrun]), h run x [] rfl⟩
  · rintro ⟨h, hx⟩ before y after hrun
    obtain rfl | ⟨after, z, rfl⟩ := List.eq_nil_or_concat' after
    · obtain ⟨rfl, hy⟩ := List.append_inj' hrun rfl
      exact List.head_eq_of_cons_eq hy ▸ hx
    · rw [← List.cons_append, ← List.append_assoc] at hrun
      exact h before y after (List.append_inj' hrun rfl).1

theorem not_lastedSince_nil : ¬ LastedSince P a ends [] := by simp [LastedSince]

theorem lastedSince_concat {run : List α} {x : α} : LastedSince P a ends (run ++ [x]) ↔
    (x = a ∧ P run) ∨ (¬ ends x ∧ LastedSince P a ends run) := by
  constructor
  · rintro ⟨before, after, hrun, hP, hafter⟩
    obtain rfl | ⟨after, y, rfl⟩ := List.eq_nil_or_concat' after
    · obtain ⟨rfl, hx⟩ := List.append_inj' hrun rfl
      exact .inl ⟨List.head_eq_of_cons_eq hx, hP⟩
    · rw [← List.cons_append, ← List.append_assoc] at hrun
      obtain ⟨rfl, hx⟩ := List.append_inj' hrun rfl
      obtain rfl := List.head_eq_of_cons_eq hx
      exact .inr ⟨hafter x (by simp), before, after, rfl, hP, fun y hy => hafter y (by simp [hy])⟩
  · rintro (⟨rfl, hP⟩ | ⟨hx, before, after, rfl, hP, hafter⟩)
    · exact ⟨run, [], rfl, hP, by simp⟩
    · refine ⟨before, after ++ [x], by simp, hP, fun y hy => ?_⟩
      obtain hy | hy := List.mem_append.mp hy
      · exact hafter y hy
      · exact List.mem_singleton.mp hy ▸ hx

/-! ### Recorded ranges -/

namespace RangeIndex

variable {l : List (Nat × Nat)} {start size a : Nat}

/-- Ranges apart from each other, the highest first. -/
def Ordered (l : List (Nat × Nat)) : Prop := l.Pairwise fun r s => s.1 + s.2 ≤ r.1

/-- A range that has room beside all that are recorded. -/
def Fits (start size : Nat) (l : List (Nat × Nat)) : Prop :=
  ∀ r ∈ l, start ≠ r.1 ∧ (start + size ≤ r.1 ∨ r.1 + r.2 ≤ start)

theorem Fits.tail {r : Nat × Nat} (h : Fits start size (r :: l)) : Fits start size l :=
  fun s hs => h s (List.mem_cons_of_mem r hs)

theorem perm_insertRange (h : Fits start size l) :
    (insertRange start size l).Perm ((start, size) :: l) := by
  induction l with
  | nil => exact .refl _
  | cons r l ih =>
    have hr := (h r List.mem_cons_self).1
    simp only [insertRange, if_neg (Ne.symm hr)]
    split_ifs
    · exact .refl _
    · exact ((ih h.tail).cons r).trans (List.Perm.swap _ _ l)

theorem Ordered.insertRange (ho : Ordered l) (h : Fits start size l) :
    Ordered (insertRange start size l) := by
  induction l with
  | nil => exact List.pairwise_singleton _ _
  | cons r l ih =>
    obtain ⟨hr, hl⟩ := List.pairwise_cons.mp ho
    have hfit := h r List.mem_cons_self
    simp only [RangeIndex.insertRange, if_neg (Ne.symm hfit.1)]
    split_ifs with hlt
    · refine List.pairwise_cons.mpr ⟨fun s hs => ?_, ho⟩
      obtain rfl | hs := List.mem_cons.mp hs
      · show s.1 + s.2 ≤ start
        omega
      · have := hr s hs
        show s.1 + s.2 ≤ start
        omega
    · refine List.pairwise_cons.mpr ⟨fun s hs => ?_, ih hl h.tail⟩
      obtain rfl | hs := List.mem_cons.mp ((perm_insertRange h.tail).mem_iff.mp hs)
      · show start + size ≤ r.1
        omega
      · exact hr s hs

/-- The last range that starts at or before an address contains it if any does. -/
theorem Ordered.floor?_contains (ho : Ordered l) :
    (∃ r, (RangeIndex.mk l).floor? a = some r ∧ a < r.1 + r.2) ↔
      ∃ r ∈ l, r.1 ≤ a ∧ a < r.1 + r.2 := by
  induction l with
  | nil => simp [floor?]
  | cons r l ih =>
    obtain ⟨hr, hl⟩ := List.pairwise_cons.mp ho
    by_cases hra : r.1 ≤ a
    · have hfind : (RangeIndex.mk (r :: l)).floor? a = some r := by simp [floor?, hra]
      constructor
      · rintro ⟨s, hs, ha⟩
        obtain rfl : r = s := Option.some.inj (hfind.symm.trans hs)
        exact ⟨r, List.mem_cons_self, hra, ha⟩
      · rintro ⟨s, hs, -, ha⟩
        obtain rfl | hs := List.mem_cons.mp hs
        · exact ⟨s, hfind, ha⟩
        · -- a later range ends before `r` starts
          have := hr s hs
          omega
    · have hfind : (RangeIndex.mk (r :: l)).floor? a = (RangeIndex.mk l).floor? a := by
        simp [floor?, hra]
      rw [hfind, ih hl]
      simp [hra]

end RangeIndex

/-! ### Runs of a quarantine -/

namespace Quarantine

open RangeIndex

variable {q : Quarantine} {d : Bool} {b : Block}

/-- What can be asked of a quarantine. -/
inductive Request where
  | push (b : Block)
  | reclaim
  | setDetecting (on : Bool)
  deriving DecidableEq

/-- Does what is asked; a switch of detection that is refused leaves all as it is. -/
def obey (q : Quarantine) : Request → Quarantine
  | .push b => q.push b
  | .reclaim => q.reclaim.2
  | .setDetecting on =>
    match q.setDetecting on with
    | .ok (_, q') => q'
    | .error _ => q

def obeyAll (q : Quarantine) (rs : List Request) : Quarantine := rs.foldl obey q

@[simp] theorem obeyAll_nil : q.obeyAll [] = q := rfl

@[simp] theorem obeyAll_append (rs ss : List Request) :
    q.obeyAll (rs ++ ss) = (q.obeyAll rs).obeyAll ss := List.foldl_append

@[simp] theorem obeyAll_singleton (r : Request) : q.obeyAll [r] = q.obey r := rfl

/-- Room for a block, beside all that are kept. -/
def HasRoom (q : Quarantine) (b : Block) : Prop := ∀ c ∈ q.blocks, b.Separate c

/-- No block that came in overlapped one that was kept then. -/
def Admits (q : Quarantine) (rs : List Request) : Prop :=
  ∀ before b after, rs = before ++ .push b :: after → (q.obeyAll before).HasRoom b

/-- A block came in while detection was on, and has not been let go since. -/
def Recorded (q : Quarantine) (rs : List Request) (b : Block) : Prop :=
  LastedSince (fun before => (q.obeyAll before).detecting = true) (.push b) (· = .reclaim) rs

theorem Admits.init {rs : List Request} {r : Request} (h : q.Admits (rs ++ [r])) : q.Admits rs :=
  fun before b after hrs => h before b (after ++ [r]) (by simp [hrs])

theorem Admits.append {rs ss : List Request} (hr : q.Admits rs) (hs : (q.obeyAll rs).Admits ss) :
    q.Admits (rs ++ ss) := by
  intro before b after h
  obtain ⟨mid, rfl, hss⟩ | ⟨mid, hrs, hss⟩ := List.append_eq_append_iff.mp h
  · rw [obeyAll_append]
    exact hs mid b after hss
  · cases mid with
    | nil =>
      rw [List.append_nil] at hrs
      subst hrs
      exact hs [] b after hss.symm
    | cons r mid =>
      obtain ⟨rfl, -⟩ := List.cons.inj hss
      exact hr before b mid hrs

theorem recorded_concat {rs : List Request} {r : Request} :
    q.Recorded (rs ++ [r]) b ↔
      (r = .push b ∧ (q.obeyAll rs).detecting = true) ∨ (r ≠ .reclaim ∧ q.Recorded rs b) :=
  lastedSince_concat

/-- The ranges recorded are those of blocks `kept`, which are in the quarantine. -/
structure Tracks (q : Quarantine) (kept : Block → Prop) : Prop where
  listed : ∀ b, kept b → b ∈ q.blocks
  recorded : ∀ r, r ∈ q.index.ranges ↔ ∃ b, kept b ∧ (b.base, b.size) = r
  ordered : Ordered q.index.ranges
  detecting : q.index.ranges ≠ [] → q.detecting = true

theorem tracks_empty (d : Bool) : (empty d).Tracks fun _ => False where
  listed _ h := h.elim
  recorded r := by simp [empty, RangeIndex.empty]
  ordered := List.Pairwise.nil
  detecting h := absurd rfl h

variable {kept : Block → Prop}

theorem Tracks.fits (h : q.Tracks kept) (hb : q.HasRoom b) : Fits b.base b.size q.index.ranges := by
  intro r hr
  obtain ⟨c, hc, rfl⟩ := (h.recorded r).mp hr
  exact hb c (h.listed c hc)

theorem Tracks.push (h : q.Tracks kept) (hb : q.HasRoom b) :
    (q.push b).Tracks fun c => (b = c ∧ q.detecting = true) ∨ kept c where
  listed c hc := by
    obtain ⟨rfl, -⟩ | hc := hc
    · exact List.mem_cons_self
    · exact List.mem_cons_of_mem b (h.listed c hc)
  recorded r := by
    cases hd : q.detecting with
    | false => simp [Quarantine.push, hd, h.recorded]
    | true =>
      have hp := (perm_insertRange (h.fits hb)).mem_iff (a := r)
      simp only [Quarantine.push, hd, if_true, RangeIndex.insert, hp, List.mem_cons, h.recorded]
      simp [or_and_right, exists_or, eq_comm]
  ordered := by
    unfold Quarantine.push
    split_ifs
    · exact h.ordered.insertRange (h.fits hb)
    · exact h.ordered
  detecting hne := by
    by_contra hd
    have hd : q.detecting = false := by simpa [Quarantine.push] using hd
    exact absurd (h.detecting (by simpa [Quarantine.push, hd] using hne)) (by simp [hd])

theorem setDetecting_cases (on : Bool) :
    (q.index.ranges = [] ∧ q.setDetecting on = .ok (q.detecting, { q with detecting := on })) ∨
      (q.index.ranges ≠ [] ∧ q.setDetecting on = .error (.detectionPinned q.index.size)) := by
  unfold setDetecting RangeIndex.size
  by_cases h : q.index.ranges = []
  · exact .inl ⟨h, by simp [h]⟩
  · exact .inr ⟨h, if_neg (by simpa using h)⟩

theorem Tracks.setDetecting (h : q.Tracks kept) (on : Bool) :
    (q.obey (.setDetecting on)).Tracks kept := by
  obtain ⟨hr, hs⟩ | ⟨-, hs⟩ := setDetecting_cases (q := q) on
  · simp only [obey, hs]
    exact ⟨h.listed, h.recorded, h.ordered, fun hne => absurd hr hne⟩
  · simp only [obey, hs]
    exact h

theorem Tracks.congr {kept' : Block → Prop} (h : q.Tracks kept) (hk : ∀ b, kept' b ↔ kept b) :
    q.Tracks kept' := by
  obtain rfl : kept' = kept := funext fun b => propext (hk b)
  exact h

/-- Whatever is asked, the recorded ranges are those of the blocks that came in while
detection was on and are still kept. -/
theorem tracks_obeyAll {rs : List Request} (h : (empty d).Admits rs) :
    ((empty d).obeyAll rs).Tracks ((empty d).Recorded rs) := by
  induction rs using List.reverseRecOn with
  | nil => exact (tracks_empty d).congr fun b => iff_of_false not_lastedSince_nil id
  | append_singleton rs r ih =>
    have ih := ih h.init
    rw [obeyAll_append, obeyAll_singleton]
    cases r with
    | push b =>
      refine (ih.push (h rs b [] rfl)).congr fun c => ?_
      simp [recorded_concat]
    | reclaim => exact (tracks_empty _).congr fun b => by simp [recorded_concat]
    | setDetecting on => exact (ih.setDetecting on).congr fun b => by simp [recorded_concat]

/-! ### Reports -/

theorem Tracks.isClear_eq_false_iff (h : q.Tracks kept) (a : Nat) :
    q.isClear a = false ↔ ∃ b, kept b ∧ b.covers a = true := by
  have hfloor : q.isClear a = false ↔ ∃ r, q.index.floor? a = some r ∧ a < r.1 + r.2 := by
    unfold isClear
    cases q.index.floor? a <;> simp
  rw [hfloor, h.ordered.floor?_contains]
  constructor
  · rintro ⟨r, hr, hlow, hhigh⟩
    obtain ⟨b, hb, rfl⟩ := (h.recorded r).mp hr
    exact ⟨b, hb, Block.covers_iff.mpr ⟨hlow, hhigh⟩⟩
  · rintro ⟨b, hb, ha⟩
    exact ⟨_, (h.recorded _).mpr ⟨b, hb, rfl⟩, Block.covers_iff.mp ha⟩

/-- What a quarantine says of addresses, and when its detection can be switched, where
`kept` are the blocks kept that came in while detection was on. -/
structure ReportsExactly (q : Quarantine) (kept : Block → Prop) : Prop where
  listed : ∀ b, kept b → b ∈ q.blocks
  reported : ∀ a, q.isClear a = false ↔ ∃ b, kept b ∧ b.covers a = true
  /-- A block that overlaps none that is kept has no address that is reported. -/
  spared : ∀ c : Block, (∀ b ∈ q.blocks, c.Separate b) → ∀ a, c.covers a = true → q.isClear a = true
  silent : q.detecting = false → ∀ a, q.isClear a = true
  recording : 0 < q.index.size → q.detecting = true
  pinned : ∀ on, (∃ e, q.setDetecting on = .error e) ↔ 0 < q.index.size

theorem Tracks.reportsExactly (h : q.Tracks kept) : q.ReportsExactly kept where
  listed := h.listed
  reported := h.isClear_eq_false_iff
  spared c hc a ha := by
    by_contra hclear
    obtain ⟨b, hb, hba⟩ := (h.isClear_eq_false_iff a).mp (by simpa using hclear)
    simp [(hc b (h.listed b hb)).not_covers ha] at hba
  silent hd a := by
    by_contra hclear
    obtain ⟨b, hb, -⟩ := (h.isClear_eq_false_iff a).mp (by simpa using hclear)
    have hmem := (h.recorded _).mpr ⟨b, hb, rfl⟩
    simp [h.detecting (List.ne_nil_of_mem hmem)] at hd
  recording hs := h.detecting (List.ne_nil_of_length_pos hs)
  pinned on := by
    obtain ⟨hr, hs⟩ | ⟨hr, hs⟩ := setDetecting_cases (q := q) on
    · simp [hs, RangeIndex.size, hr]
    · simp [hs, RangeIndex.size, List.length_pos_iff, hr]

end Quarantine

end Custody

import Custody.Block
import Mathlib.Tactic.SplitIfs

/-! How blocks are laid out. Every block that the arena grants has its payload behind its
header and inside the block, so what is written to the header does not change the payload. -/

namespace Custody

theorem le_roundUp (n align : Nat) : n ≤ roundUp n align := by
  have hpos : 0 < max align 1 := Nat.lt_of_lt_of_le Nat.zero_lt_one (Nat.le_max_right _ _)
  have hd := Nat.div_add_mod (n + (align - 1)) (max align 1)
  have hm := Nat.mod_lt (n + (align - 1)) hpos
  unfold roundUp
  rw [Nat.mul_comm]
  omega

namespace Block

variable {b : Block}

/-- The payload lies behind the header and inside the block. -/
structure Formed (b : Block) : Prop where
  headed : header.size ≤ b.offset
  inside : b.offset + b.payloadSize ≤ b.size

/-- What the payload holds does not matter. -/
theorem Formed.holding (h : b.Formed) (c : Contents) : { b with contents := c }.Formed :=
  ⟨h.headed, h.inside⟩

theorem around_eq_some {payload whole : Layout} {offset : Nat}
    (h : around payload = some (whole, offset)) :
    offset = roundUp header.size payload.align ∧ offset + payload.size ≤ whole.size := by
  unfold around Layout.extend at h
  obtain ⟨extended, hext, hwhole⟩ := Option.map_eq_some_iff.mp h
  obtain ⟨checked, hchecked, rfl⟩ := Option.map_eq_some_iff.mp hext
  unfold Layout.checked at hchecked
  split_ifs at hchecked
  obtain rfl := Option.some.inj hchecked
  obtain ⟨rfl, rfl⟩ := Prod.mk.inj hwhole
  exact ⟨rfl, le_roundUp _ _⟩

theorem Formed.covers_payload (h : b.Formed) {i : Nat} (hi : i < b.payloadSize) :
    b.covers (b.payload + i) = true := by
  have hinside := h.inside
  simp only [covers, payload, Bool.and_eq_true]
  exact ⟨decide_eq_true (by omega), decide_eq_true (by omega)⟩

/-- The bytes of the payload are read as they are, whatever the header links to. -/
theorem Formed.byte?_payload (h : b.Formed) {i : Nat} (hi : i < b.payloadSize) (next : Nat) :
    b.byte? next (b.offset + i) = b.contents.get? i := by
  have hheaded := h.headed
  unfold byte?
  rw [if_neg (by omega), if_pos (by simp [hi]), Nat.add_sub_cancel_left]

end Block

theorem Layout.size_of_array {element l : Layout} {n : Nat} (h : element.array n = some l) :
    l.size = element.size * n := by
  simp only [array, checked] at h
  split_ifs at h
  cases h
  rfl

theorem Arena.payloadSize_of_allocate {a a' : Arena} {payload : Layout} {n : Nat} {b : Block}
    (h : a.allocate payload n = .ok (b, a')) : b.payloadSize = payload.size := by
  unfold allocate at h
  cases hl : Block.around payload with
  | none => simp [hl] at h
  | some whole =>
    simp only [hl] at h
    cases hp : a.place whole.1 with
    | none => simp [hp] at h
    | some placed =>
      simp only [hp] at h
      obtain ⟨rfl, -⟩ := Prod.mk.inj (Except.ok.inj h)
      rfl

theorem Arena.formed_of_allocate {a a' : Arena} {payload : Layout} {n : Nat} {b : Block}
    (h : a.allocate payload n = .ok (b, a')) : b.Formed := by
  unfold allocate at h
  cases hl : Block.around payload with
  | none => simp [hl] at h
  | some whole =>
    obtain ⟨whole, offset⟩ := whole
    simp only [hl] at h
    obtain ⟨rfl, hinside⟩ := Block.around_eq_some hl
    cases hp : a.place whole with
    | none => simp [hp] at h
    | some placed =>
      simp only [hp] at h
      obtain ⟨rfl, -⟩ := Prod.mk.inj (Except.ok.inj h)
      exact ⟨le_roundUp _ _, hinside⟩

end Custody

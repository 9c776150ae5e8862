import Custody.Error

/-! Sizes and alignments of memory. A layout is valid when its size, rounded up
to its alignment, does not exceed the largest signed word. A block holds a
header, then its payload at the first offset that suits the payload's alignment,
and is rounded up to its own alignment. -/

namespace Custody

/-- The least multiple of `align` that is at least `n`; `n` itself if `align` is zero. -/
def roundUp (n align : Nat) : Nat := (n + (align - 1)) / max align 1 * max align 1

structure Layout where
  size : Nat
  align : Nat
  deriving DecidableEq, Repr

namespace Layout

/-- The largest rounded size. -/
def limit : Nat := 9223372036854775807

/-- The layout, if its size rounded up to its alignment is within the limit. -/
def checked (size align : Nat) : Option Layout :=
  if size ≤ limit - (align - 1) then some ⟨size, align⟩ else none

/-- `count` elements side by side. -/
def array (element : Layout) (count : Nat) : Option Layout :=
  checked (element.size * count) element.align

/-- A second part after the first, at the first offset that suits it. -/
def extend (first second : Layout) : Option (Layout × Nat) :=
  let offset := roundUp first.size second.align
  (checked (offset + second.size) (max first.align second.align)).map fun whole => (whole, offset)

/-- The size rounded up to the alignment. -/
def padded (l : Layout) : Layout := ⟨roundUp l.size l.align, l.align⟩

end Layout

end Custody

import Custody.Error

/-! Positions in a range of elements. A position lies between the first element
and the end, both included. Moving saturates at both ends; only `here` and
`away` tell an element from the end. Positions are machine words and steps are
signed words, so the sums here are the saturating and the wrapping ones. -/

namespace Custody

/-- A position `index` in a range of `length` elements. -/
@[ext] structure Position where
  index : UInt64
  length : UInt64
  index_le_length : index ≤ length
  deriving DecidableEq, Repr

namespace Word

/-- The largest word. -/
def top : UInt64 := 18446744073709551615

/-- The magnitude of a signed word; that of the least signed word is a word too. -/
def magnitude (n : Int64) : UInt64 := if n < 0 then 0 - n.toUInt64 else n.toUInt64

/-- The sum, or the largest word where the sum is no word. -/
def addUpTo (a b : UInt64) : UInt64 := if a + b < a then top else a + b

/-- The difference, or zero where it would be negative. -/
def subDownTo (a b : UInt64) : UInt64 := if a < b then 0 else a - b

/-- The sum of a word and a signed word, if it is a word. -/
def step? (a : UInt64) (n : Int64) : Option UInt64 :=
  if n < 0 then
    if a < magnitude n then none else some (a - magnitude n)
  else
    if a + magnitude n < a then none else some (a + magnitude n)

/-- The negation, or the largest signed word where it is none. -/
def negateUpTo (n : Int64) : Int64 := if n = Int64.minValue then Int64.maxValue else -n

end Word

namespace Position

/-- The position at `index`, or the end if `index` lies beyond it. -/
def clamped (index length : UInt64) : Position :=
  if h : index ≤ length then ⟨index, length, h⟩ else ⟨length, length, UInt64.le_refl length⟩

def start (length : UInt64) : Position := ⟨0, length, UInt64.zero_le⟩

def finish (length : UInt64) : Position := ⟨length, length, UInt64.le_refl length⟩

/-- The only position of the empty range. -/
def origin : Position := start 0

instance : Inhabited Position := ⟨origin⟩

def isEnd (p : Position) : Bool := p.index = p.length

def isEmpty (p : Position) : Bool := p.length = 0

/-- How many elements lie at or after the position. -/
def remaining (p : Position) : Nat := p.length.toNat - p.index.toNat

/-- One step forward, staying at the end. -/
def next (p : Position) : Position :=
  clamped (if p.index < p.length then p.index + 1 else p.index) p.length

/-- One step back, staying at the first element. -/
def previous (p : Position) : Position := clamped (Word.subDownTo p.index 1) p.length

/-- Moves by `n`, stopping at either end. -/
def advance (p : Position) (n : Int64) : Position :=
  clamped
    (if n < 0 then Word.subDownTo p.index (Word.magnitude n)
      else Word.addUpTo p.index (Word.magnitude n))
    p.length

/-- Moves by `-n`, stopping at either end. -/
def retreat (p : Position) (n : Int64) : Position := p.advance (Word.negateUpTo n)

/-- The ways of moving within a range. -/
inductive Move where
  | next
  | previous
  | advance (n : Int64)
  | retreat (n : Int64)
  deriving DecidableEq, Repr

def move (p : Position) : Move → Position
  | .next => p.next
  | .previous => p.previous
  | .advance n => p.advance n
  | .retreat n => p.retreat n

/-- The index, if an element is there. -/
def here (p : Position) : Except AccessRefusal UInt64 :=
  if p.index < p.length then .ok p.index
  else .error (.outOfRange p.index.toNat p.length.toNat)

/-- The index `n` away, if an element is there; an index that is no word is
reported as the largest one. -/
def away (p : Position) (n : Int64) : Except AccessRefusal UInt64 :=
  match Word.step? p.index n with
  | some i => if i < p.length then .ok i else .error (.outOfRange i.toNat p.length.toNat)
  | none => .error (.outOfRange Word.top.toNat p.length.toNat)

/-- `p - q` as a signed word: the unsigned difference read as signed, and negated
when `q` is ahead. The least signed word has no negation. -/
def distance (p q : Position) : Except Panic Int64 :=
  if q.index ≤ p.index then .ok (p.index - q.index).toInt64
  else
    let ahead := (q.index - p.index).toInt64
    if ahead = Int64.minValue then .error .negation else .ok (-ahead)

/-- By index, then by length. -/
def order (p q : Position) : Ordering :=
  (compare p.index.toNat q.index.toNat).then (compare p.length.toNat q.length.toNat)

def describe (p : Position) : String :=
  Text.fields "Cursor" [("ix", toString p.index.toNat), ("len", toString p.length.toNat)]

end Position

end Custody

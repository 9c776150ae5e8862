import Custody.Object.Kind
import Custody.Slice

/-! Rows: a fixed number of elements, each access checked. -/

namespace Custody

abbrev Row (α : Type) (n : Nat) := Vector α n

namespace Row

variable {α : Type} {n : Nat}

/-- The row `s`, `s + d`, and so on. -/
def progression (n : Nat) (s d : Int) : Row Int64 n :=
  Vector.ofFn fun i => Int64.ofInt (s + d * i.val)

def zero (n : Nat) : Row Int64 n := Vector.replicate n 0

/-- A list of the right length as a row. -/
def ofList? (n : Nat) (items : List α) : Option (Row α n) :=
  if h : items.length = n then some ⟨items.toArray, by simpa using h⟩ else none

def get (r : Row α n) (i : UInt64) : Except AccessRefusal α :=
  if h : i.toNat < n then .ok r[i.toNat] else .error (.outOfRange i.toNat n)

def put (r : Row α n) (i : UInt64) (a : α) : Except AccessRefusal (Row α n) :=
  if h : i.toNat < n then .ok (r.set i.toNat a h) else .error (.outOfRange i.toNat n)

def front (r : Row α n) : Except AccessRefusal α := r.get 0

/-- The last element; an empty row has none at index zero. -/
def back (r : Row α n) : Except AccessRefusal α := r.get (UInt64.ofNat (n - 1))

/-- The whole row as a slice, at the address where the row lies. -/
def slice (r : Row α n) (address : Nat) : Slice α := ⟨address, r.toList⟩

end Row

/-- The text of a row of elements. -/
def describeRow (elements : List String) (m : Mode) : String :=
  Text.fields "FixedArray"
    [("items", Text.bracketed elements),
     ("_mode", "PhantomData<safemem_core::safety::" ++ m.marker ++ ">")]

end Custody

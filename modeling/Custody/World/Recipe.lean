import Custody.World.Construction

/-! How objects are described when they are built: a single value, or an arithmetic
progression of values, with finalizers on every element or on one. -/

namespace Custody

/-- The elements `start`, `start + step`, and so on. -/
structure Recipe where
  count : UInt64
  start : Int
  step : Int
  /-- The finalizer bits. -/
  bits : Nat
  /-- The only element that has the bits, if not every one has them. -/
  only : Option Nat
  /-- Where building gives up. -/
  stop : Option Nat
  deriving DecidableEq, Repr

namespace Recipe

def seed (r : Recipe) (e : Element) (i : Nat) : Seed :=
  .ofNumber e (r.start + r.step * i) (if r.only.all (· = i) then r.bits else 0)

def plan (r : Recipe) (e : Element) : Plan := ⟨r.count, r.seed e, r.stop⟩

end Recipe

/-- The plan of an object set from one number: `v`, `v + 1`, and so on. -/
def Plan.ofNumber (k : Kind) (v : Int) (bits : Nat) : Plan :=
  (Recipe.mk (UInt64.ofNat (k.lengthOf 1)) v 1 bits none none).plan k.element

end Custody

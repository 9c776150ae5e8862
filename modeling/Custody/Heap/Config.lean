import Custody.SlotTable

/-! How a heap is set up: whether released blocks are kept, whether their ranges
are recorded, whether they are overwritten, and how slot tables grow. -/

namespace Custody

structure Config where
  /-- Whether released blocks are kept in quarantine. -/
  keeps : Bool
  /-- Whether the ranges of kept blocks are recorded. -/
  detects : Bool
  /-- Whether kept payloads are overwritten. -/
  poisons : Bool
  growth : UInt64
  cap : UInt32
  deriving DecidableEq, Repr

namespace Config

/-- Everything on. -/
def standard : Config := ⟨true, true, true, 2, 4294967294⟩

/-- Released blocks go back at once. -/
def unkept : Config := { standard with keeps := false, detects := false, poisons := false }

instance : Inhabited Config := ⟨standard⟩

/-- Growth must at least double a table, and the cap must cover the first slots. -/
def check (c : Config) : Except ConfigRefusal Unit :=
  if c.growth < 2 then .error (.growthTooSmall c.growth.toNat)
  else if c.cap.toNat < SlotTable.initial then
    .error (.capBelowInitial c.cap.toNat SlotTable.initial)
  else .ok ()

/-- Changes to a configuration, one setting each. -/
inductive Setting where
  | keeps (on : Bool)
  | detects (on : Bool)
  | poisons (on : Bool)
  | growth (factor : UInt64)
  | cap (slots : UInt32)
  deriving DecidableEq, Repr

def apply (c : Config) : Setting → Config
  | .keeps on => { c with keeps := on }
  | .detects on => { c with detects := on }
  | .poisons on => { c with poisons := on }
  | .growth factor => { c with growth := factor }
  | .cap slots => { c with cap := slots }

def describe (c : Config) : String :=
  Text.fields "HeapConfig"
    [("zombie_mode", if c.keeps then "Quarantine" else "Disabled"),
     ("early_detection", Text.flag c.detects), ("poison_freed", Text.flag c.poisons),
     ("slot_growth_factor", toString c.growth.toNat),
     ("max_slots_per_block", toString c.cap.toNat)]

end Config

end Custody

/-! Text of structured values: a name with its fields in braces, and lists in
square brackets. Every printed structure of the library goes through these two
functions. -/

namespace Custody.Text

/-- Items between separators `, `. -/
def commas (items : List String) : String := String.intercalate ", " items

/-- A list in square brackets. -/
def bracketed (items : List String) : String := "[" ++ commas items ++ "]"

/-- A name followed by its fields in braces; the bare name where there are none. -/
def fields (name : String) : List (String × String) → String
  | [] => name
  | fs => name ++ " \x7b " ++ commas (fs.map fun f => f.1 ++ ": " ++ f.2) ++ " \x7d"

/-- Truth values are printed in full. -/
def flag (b : Bool) : String := if b then "true" else "false"

end Custody.Text

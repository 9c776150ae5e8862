import Custody.Text.Escapes

/-! Quoted text: a string between double quotes, with the quote, the backslash
and every character that does not print written as an escape. -/

namespace Custody.Text

/-- Hexadecimal digits of a code point, lower case and without leading zeros. -/
def hex (n : Nat) : String := String.ofList (Nat.toDigits 16 n)

/-- A character as it stands inside quotes. -/
def escape : Char → String
  | '\x00' => "\\0"
  | '\t' => "\\t"
  | '\n' => "\\n"
  | '\r' => "\\r"
  | '"' => "\\\""
  | '\\' => "\\\\"
  | c => if needsEscape c then "\\u\x7b" ++ hex c.toNat ++ "\x7d" else c.toString

/-- A string in double quotes. -/
def quoted (s : String) : String :=
  "\"" ++ String.join (s.toList.map escape) ++ "\""

end Custody.Text

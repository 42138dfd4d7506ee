/-!
# Escapes

Behind a backslash a letter stands for a control character, a quote or backslash for
itself, and hexadecimal digits for a code.
-/

namespace MemberOrder.Text

def hexValue? (c : Char) : Option Nat :=
  if '0' ≤ c ∧ c ≤ '9' then some (c.toNat - '0'.toNat)
  else if 'a' ≤ c ∧ c ≤ 'f' then some (c.toNat - 'a'.toNat + 10)
  else if 'A' ≤ c ∧ c ≤ 'F' then some (c.toNat - 'A'.toNat + 10)
  else none

def shortEscape? : Char → Option Char
  | 'b' => some '\x08'
  | 't' => some '\t'
  | 'n' => some '\n'
  | 'f' => some '\x0c'
  | 'r' => some '\r'
  | '"' => some '"'
  | '\\' => some '\\'
  | _ => none

theorem hexValue?_digitChar {d : Nat} (small : d < 16) : hexValue? d.digitChar = some d := by
  have checked : ∀ d < 16, hexValue? (Nat.digitChar d) = some d := by decide
  exact checked d small

theorem hexValue?_toUpper_digitChar {d : Nat} (small : d < 16) :
    hexValue? d.digitChar.toUpper = some d := by
  have checked : ∀ d < 16, hexValue? (Nat.digitChar d).toUpper = some d := by decide
  exact checked d small

end MemberOrder.Text

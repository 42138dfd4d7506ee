import MemberOrder.Binary64.Text
import MemberOrder.Text.Quoted

/-!
# Forms of values

A decoder looks at a value one level at a time. The form of a value is all it may
see: a scalar with its content, a sequence with its items, or that it is a mapping.
Whatever has forms can be decoded, from whichever text it was read.
-/

namespace MemberOrder

inductive Form (α : Type)
  | null
  | boolean (b : Bool)
  | integer (n : Int)
  | float (x : Binary64)
  | string (s : String)
  | sequence (items : List α)
  | mapping

class HasForm (α : Type) where
  form : α → Form α
  /-- How messages about such values write a double. -/
  floatStyle : Binary64.Style

export HasForm (form)

def Form.describe {α : Type} [HasForm α] : Form α → String
  | .null => "null"
  | .boolean b => "boolean `" ++ toString b ++ "`"
  | .integer n => "integer `" ++ toString n ++ "`"
  | .float x => "floating point `" ++ x.text (HasForm.floatStyle α) ++ "`"
  | .string s => "string " ++ Text.quoted s
  | .sequence _ => "sequence"
  | .mapping => "map"

end MemberOrder

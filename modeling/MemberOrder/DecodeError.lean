import MemberOrder.Category
import MemberOrder.Form

/-!
# Decoding errors

Why a value does not decode. An error about one value carries that value, so that
a text it was read from can be quoted.
-/

namespace MemberOrder

inductive Field
  | strict
  | order
  deriving DecidableEq, Repr

def Field.longName : Field → String
  | .strict => "use_class_attributes_order_strict_mode"
  | .order => "class_attributes_order"

def Field.shortName : Field → String
  | .strict => "strict"
  | .order => "order"

/-- The field that a key names, by its long or its short name. -/
def Field.ofKey? (key : String) : Option Field :=
  [strict, order].find? fun f => key == f.longName || key == f.shortName

inductive Expectation
  | boolean
  | sequence
  | string
  | unit
  | settings
  | category
  deriving DecidableEq, Repr

def Expectation.describe : Expectation → String
  | .boolean => "a boolean"
  | .sequence => "a sequence"
  | .string => "a string"
  | .unit => "unit"
  | .settings => "struct OrderConfig"
  | .category => "string or map"

inductive DecodeError (α : Type)
  | wrongType (value : α) (expected : Expectation)
  /-- A field is named a second time, by either name. -/
  | duplicateField (field : Field)
  /-- Settings given by position have more items than fields. -/
  | tooManyItems (count : Nat)
  | unknownCategory (name : String)
  /-- A category written as a mapping needs exactly one key. -/
  | notSingleKey

namespace DecodeError

/-- The value an error is about; an error about a whole document has none. -/
def value? {α : Type} : DecodeError α → Option α
  | wrongType v _ => some v
  | _ => none

def message {α : Type} [HasForm α] : DecodeError α → String
  | wrongType v expected =>
    "invalid type: " ++ (form v).describe ++ ", expected " ++ expected.describe
  | duplicateField field => "duplicate field `" ++ field.longName ++ "`"
  | tooManyItems count =>
    "invalid length " ++ toString count ++ ", expected fewer elements in array"
  | unknownCategory name =>
    "unknown variant `" ++ name ++ "`, expected one of " ++
      ", ".intercalate (Category.all.map fun c => "`" ++ c.tag ++ "`")
  | notSingleKey => "invalid value: map, expected map with a single key"

end DecodeError

end MemberOrder

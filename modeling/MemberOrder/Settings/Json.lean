import MemberOrder.Json.Writer
import MemberOrder.Settings.Decoding

/-!
# Settings in JSON

Settings are written as an object with both fields under their long names. They
are read from an object, whose entries are visited by ascending name, or from an
array by position.
-/

namespace MemberOrder

instance : HasForm Json where
  form
    | .null => .null
    | .boolean b => .boolean b
    | .integer n => .integer n
    | .float x => .float x
    | .string s => .string s
    | .array items => .sequence items
    | .object _ => .mapping
  floatStyle := Json.floatStyle

namespace Settings

def ofJson (v : Json) : Except (DecodeError Json) Settings :=
  match v with
  | .object members => ofEntries (Json.entries members)
  | .array items => ofItems items
  | v => .error (.wrongType v .settings)

def toJson (s : Settings) : Json :=
  .object
    [(Field.strict.longName, .boolean s.strict),
      (Field.order.longName,
        match s.order with
        | none => .null
        | some names => .array (names.map .string))]

end Settings

end MemberOrder

import MemberOrder.Settings.Json

/-!
# Categories in JSON

A category is written as its tag. It is read from its tag, or from an object whose
only key is the tag and holds null.
-/

namespace MemberOrder.Category

def toJson (c : Category) : Json :=
  .string c.tag

def decodeTag (text : String) : Except (DecodeError Json) Category :=
  match ofTag? text with
  | some c => .ok c
  | none => .error (.unknownCategory text)

def ofJson (v : Json) : Except (DecodeError Json) Category :=
  match v with
  | .string text => decodeTag text
  | .object members =>
    match Json.entries members with
    | [(key, content)] => do
      let c ← decodeTag key
      match content with
      | .null => return c
      | other => throw (.wrongType other .unit)
    | _ => .error .notSingleKey
  | other => .error (.wrongType other .category)

end MemberOrder.Category

import MemberOrder.DecodeError
import MemberOrder.Settings

/-!
# Decoding settings

Entries are visited in the order given. Either name of a field fills it; a field
that is already filled may not be named again, whatever stands there. Entries of
other names are passed over.
-/

namespace MemberOrder.Settings

variable {α : Type} [HasForm α]

def decodeFlag (v : α) : Except (DecodeError α) Bool :=
  match form v with
  | .boolean b => .ok b
  | _ => .error (.wrongType v .boolean)

def decodeName (v : α) : Except (DecodeError α) String :=
  match form v with
  | .string s => .ok s
  | _ => .error (.wrongType v .string)

/-- A null stands for no order. -/
def decodeOrder (v : α) : Except (DecodeError α) (Option (List String)) :=
  match form v with
  | .null => .ok none
  | .sequence items => (items.mapM decodeName).map some
  | _ => .error (.wrongType v .sequence)

structure Draft where
  strict : Option Bool := none
  order : Option (Option (List String)) := none
  deriving DecidableEq, Repr

/-- A field left open has its default. -/
def Draft.settings (d : Draft) : Settings :=
  { strict := d.strict.getD false, order := d.order.getD none }

def Draft.enter (d : Draft) (key : String) (v : α) : Except (DecodeError α) Draft :=
  match Field.ofKey? key with
  | none => .ok d
  | some .strict =>
    if d.strict.isSome then .error (.duplicateField .strict)
    else (decodeFlag v).map fun b => { d with strict := some b }
  | some .order =>
    if d.order.isSome then .error (.duplicateField .order)
    else (decodeOrder v).map fun order => { d with order := some order }

def ofEntries (entries : List (String × α)) : Except (DecodeError α) Settings :=
  (entries.foldlM (fun (d : Draft) e => d.enter e.1 e.2) {}).map Draft.settings

/-- Settings by position: strict mode, then the order; missing ones have their defaults. -/
def ofItems : List α → Except (DecodeError α) Settings
  | [] => .ok {}
  | [flag] => do
    let strict ← decodeFlag flag
    return { strict }
  | flag :: names :: rest => do
    let strict ← decodeFlag flag
    let order ← decodeOrder names
    if rest.isEmpty then return { strict, order }
    else throw (.tooManyItems (rest.length + 2))

end MemberOrder.Settings

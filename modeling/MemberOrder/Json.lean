import MemberOrder.Binary64

/-!
# JSON values

An object keeps its members as they were written. Where a reader of objects needs
one member per name, `entries` gives them: ascending by name, and of two members of
one name the later.
-/

namespace MemberOrder

inductive Json
  | null
  | boolean (b : Bool)
  | integer (n : Int)
  | float (x : Binary64)
  | string (s : String)
  | array (items : List Json)
  | object (members : List (String × Json))

namespace Json

/-- Enters a member into a list that ascends by name. -/
def enter {α : Type} (name : String) (value : α) : List (String × α) → List (String × α)
  | [] => [(name, value)]
  | (other, old) :: rest =>
    if name < other then (name, value) :: (other, old) :: rest
    else if name = other then (name, value) :: rest
    else (other, old) :: enter name value rest

/-- One entry per name, ascending; the order of code points is that of the UTF-8 bytes. -/
def entries {α : Type} (members : List (String × α)) : List (String × α) :=
  members.foldl (fun found m => enter m.1 m.2 found) []

end Json

end MemberOrder

import MemberOrder.Lookup
import MemberOrder.Toml.Node

/-!
# Building tables

Tables grow by lines `a.b.key = value`. The parts in front of the last name tables,
made on the way where they are missing. A table is given its content in one manner
only: a dotted key enters no table that has a header or braces of its own, and the
table it ends in must be one that dotted keys made.
-/

namespace MemberOrder.Toml

structure Line where
  path : List Key
  key : Key
  value : Node

def dropEntry (name : String) (entries : List (String × Node)) : List (String × Node) :=
  entries.filter fun e => e.1 != name

/-- Makes a change in the table at the end of a path. Of a repeated header the last table is
entered. -/
def Node.within (dotted : Bool) (change : Node → Option Node) : List Key → Node → Option Node
  | [], node => change node
  | k :: path, .table span origin entries =>
    match entries.lookup k.name with
    | none => do
      let made := Node.table k.span (if dotted then .dotted else .implied) []
      let changed ← made.within dotted change path
      return .table span origin (entries ++ [(k.name, changed)])
    | some (.table s o es) =>
      if o = .inline ∨ (dotted ∧ o = .header) then none
      else do
        let changed ← (Node.table s o es).within dotted change path
        return .table span origin (setEntry k.name changed entries)
    | some (.series s tables) => do
      let changed ← (← tables.getLast?).within dotted change path
      return .table span origin
        (setEntry k.name (.series s (tables.dropLast ++ [changed])) entries)
    | some _ => none
  | _ :: _, _ => none

def Node.enterValue (line : Line) : Node → Option Node
  | .table span origin entries =>
    if (origin = .dotted) = (line.path = []) then none
    else if (entries.lookup line.key.name).isSome then none
    else some (.table span origin (entries ++ [(line.key.name, line.value)]))
  | _ => none

/-- The table then reaches to the end of the value. -/
def Node.reachTo (stop : Nat) : Node → Node
  | .table span origin entries => .table ⟨span.start, stop⟩ origin entries
  | node => node

def Node.enterLine (table : Node) (line : Line) : Option Node := do
  let entered ← table.within true (Node.enterValue line) line.path
  return entered.reachTo line.value.span.stop

end MemberOrder.Toml

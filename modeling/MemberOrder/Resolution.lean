import MemberOrder.Event
import MemberOrder.WeightTable

/-!
# Resolution

Settings resolve to a weight table. Without an order the table is one of the two
built-in ones. An order gives its names consecutive weights behind the fixed head
of the class, and each configurable category takes the weight of the first name
on its path that the order lists.
-/

namespace MemberOrder

structure Resolution where
  table : WeightTable
  log : List Event
  deriving DecidableEq

namespace Resolution

/-- The weight of a position in an order. Positions beyond the range of weights share the
greatest one. -/
def weightAt (position : Nat) : Weight :=
  .ofNat (min (WeightTable.fixed.size + position) (UInt32.size - 1))

/-- The listed names with their weights, the last one first, so that looking up a name
finds its last position. -/
def slots (order : List String) : List (String × Weight) :=
  (order.zipIdx.map fun slot => (slot.1, weightAt slot.2)).reverse

/-- The weight of the first name on the category's path that the order lists. -/
def weightIn? (order : List String) (c : Category) : Option Weight :=
  c.path.findSome? fun a => (slots order).lookup a.name

def place (order : List String) (r : Resolution) (c : Category) : Resolution :=
  match weightIn? order c with
  | some w => { r with table := r.table.insert c w }
  | none => { r with log := r.log ++ [.unplaced c] }

def ofOrder (order : List String) : Resolution :=
  Category.configurable.foldl (place order) ⟨.fixed, []⟩

end Resolution

namespace Settings

/-- An order takes precedence over strict mode. -/
def resolve (s : Settings) : Resolution :=
  let warned := s.warnings.map Event.warning
  match s.customOrder with
  | some order =>
    let placed := Resolution.ofOrder order
    ⟨placed.table, warned ++ s.unknownNames.map Event.ignoredName ++ placed.log⟩
  | none => ⟨if s.strict then .strict else .default, warned⟩

end Settings

end MemberOrder

import MemberOrder.Json.Writer
import MemberOrder.WeightTable

/-!
# Weight tables in JSON

A table is written as an object from names to weights, in canonical order.
-/

namespace MemberOrder.WeightTable

def toJson (t : WeightTable) : Json :=
  .object (t.entries.map fun e => (e.1.name, .integer e.2.toNat))

end MemberOrder.WeightTable

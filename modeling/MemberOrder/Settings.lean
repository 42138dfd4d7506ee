import MemberOrder.Category

/-!
# Settings

The two choices a user makes: strict mode, and an explicit order of categories.
Names of no category are kept as they are written; they take up a position and
are otherwise ignored.
-/

namespace MemberOrder

structure Settings where
  /-- Private variants get a weight of their own. -/
  strict : Bool := false
  /-- Category names, earliest first. -/
  order : Option (List String) := none
  deriving DecidableEq, Repr, Inhabited

inductive Warning
  | exclusiveOptions
  deriving DecidableEq, Repr

def Warning.message : Warning → String
  | .exclusiveOptions =>
    "Both options that are exclusive provided: " ++
      "use_class_attributes_order_strict_mode and class_attributes_order. " ++
      "Order defined in class_attributes_order will be used to check against."

namespace Settings

/-- An empty order counts as none. -/
def customOrder (s : Settings) : Option (List String) :=
  s.order.filter fun names => !names.isEmpty

theorem customOrder_eq_some_iff {s : Settings} {names : List String} :
    s.customOrder = some names ↔ s.order = some names ∧ names ≠ [] := by
  simp [customOrder, Option.filter_eq_some_iff]

theorem customOrder_eq_none_iff {s : Settings} :
    s.customOrder = none ↔ s.order = none ∨ s.order = some [] := by
  cases h : s.order <;> simp [customOrder, h]

def warnings (s : Settings) : List Warning :=
  if s.strict && s.customOrder.isSome then [.exclusiveOptions] else []

def unknownNames (s : Settings) : List String :=
  (s.customOrder.getD []).filter fun name => (Category.ofName? name).isNone

/-- Lists one more name at the end, starting an order if there is none. -/
def push (s : Settings) (name : String) : Settings :=
  { s with order := some (s.order.getD [] ++ [name]) }

/-- Strict mode can be added but not taken away; an order replaces the one there was. -/
def override (s : Settings) (strict : Bool) (order : Option (List String)) : Settings :=
  { strict := s.strict || strict, order := order.or s.order }

end Settings

end MemberOrder

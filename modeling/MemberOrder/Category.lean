/-!
# Categories of class members

A category is the role a statement plays in a class body. The constructors stand
in canonical order, the order in which tables list their rows. A category that a
user may place carries a fallback path, most specific first; the four categories
with an empty path keep a fixed place at the head of the class. A configuration
calls a category by its name; data call it by a tag, which is made from the word
that code uses.
-/

namespace MemberOrder

inductive Category
  | docstring
  | pass
  | metaClass
  | nestedClass
  | constant
  | field
  | outerField
  | ifBlock
  | expression
  | new
  | init
  | postInit
  | str
  | save
  | delete
  | propertyMethod
  | privatePropertyMethod
  | staticMethod
  | privateStaticMethod
  | classMethod
  | privateClassMethod
  | method
  | magicMethod
  | privateMethod
  deriving DecidableEq, Repr

namespace Category

def all : List Category :=
  [docstring, pass, metaClass, nestedClass, constant, field, outerField, ifBlock, expression,
    new, init, postInit, str, save, delete, propertyMethod, privatePropertyMethod, staticMethod,
    privateStaticMethod, classMethod, privateClassMethod, method, magicMethod, privateMethod]

def name : Category → String
  | docstring => "docstring"
  | pass => "pass"
  | metaClass => "meta_class"
  | nestedClass => "nested_class"
  | constant => "constant"
  | field => "field"
  | outerField => "outer_field"
  | ifBlock => "if"
  | expression => "expression"
  | new => "__new__"
  | init => "__init__"
  | postInit => "__post_init__"
  | str => "__str__"
  | save => "save"
  | delete => "delete"
  | propertyMethod => "property_method"
  | privatePropertyMethod => "private_property_method"
  | staticMethod => "static_method"
  | privateStaticMethod => "private_static_method"
  | classMethod => "class_method"
  | privateClassMethod => "private_class_method"
  | method => "method"
  | magicMethod => "magic_method"
  | privateMethod => "private_method"

/-- The category of exactly this name, with no folding of case or blanks. -/
def ofName? (text : String) : Option Category :=
  all.find? fun c => c.name == text

/-- A text that is no category's name. -/
structure UnknownCategory where
  name : String
  deriving DecidableEq, Repr

def UnknownCategory.message (e : UnknownCategory) : String :=
  "Unknown category: " ++ e.name

def parse (text : String) : Except UnknownCategory Category :=
  match ofName? text with
  | some c => .ok c
  | none => .error ⟨text⟩

/-- The word for the category in code, a capital at the head of each of its parts. -/
def identifier : Category → String
  | docstring => "Docstring"
  | pass => "Pass"
  | metaClass => "MetaClass"
  | nestedClass => "NestedClass"
  | constant => "Constant"
  | field => "Field"
  | outerField => "OuterField"
  | ifBlock => "If"
  | expression => "Expression"
  | new => "New"
  | init => "Init"
  | postInit => "PostInit"
  | str => "Str"
  | save => "Save"
  | delete => "Delete"
  | propertyMethod => "PropertyMethod"
  | privatePropertyMethod => "PrivatePropertyMethod"
  | staticMethod => "StaticMethod"
  | privateStaticMethod => "PrivateStaticMethod"
  | classMethod => "ClassMethod"
  | privateClassMethod => "PrivateClassMethod"
  | method => "Method"
  | magicMethod => "MagicMethod"
  | privateMethod => "PrivateMethod"

def snakeCase (word : String) : String :=
  match word.toList with
  | [] => ""
  | first :: rest =>
    String.ofList (first.toLower ::
      rest.flatMap fun c => if c.isUpper then ['_', c.toLower] else [c.toLower])

def ownTag? : Category → Option String
  | new => some "__new__"
  | init => some "__init__"
  | postInit => some "__post_init__"
  | str => some "__str__"
  | _ => none

/-- The name that data uses: the identifier in snake case, unless a tag is set by hand. -/
def tag (c : Category) : String :=
  c.ownTag?.getD (snakeCase c.identifier)

def ofTag? (text : String) : Option Category :=
  all.find? fun c => c.tag == text

def index (c : Category) : Nat :=
  all.idxOf c

instance : LT Category := ⟨fun a b => a.index < b.index⟩

instance (a b : Category) : Decidable (a < b) :=
  inferInstanceAs (Decidable (a.index < b.index))

instance : Ord Category := ⟨fun a b => compare a.index b.index⟩

/-- Where a listed order is searched for a place, the category itself first.
It is empty for the categories whose place no order can change. -/
def path : Category → List Category
  | nestedClass => [nestedClass]
  | metaClass => [metaClass, nestedClass]
  | field => [field]
  | constant => [constant, field]
  | outerField => [outerField, field]
  | method => [method]
  | magicMethod => [magicMethod, method]
  | new => [new, magicMethod, method]
  | init => [init, magicMethod, method]
  | postInit => [postInit, magicMethod, method]
  | str => [str, magicMethod, method]
  | privateMethod => [privateMethod, method]
  | save => [save, method]
  | delete => [delete, method]
  | propertyMethod => [propertyMethod, method]
  | privatePropertyMethod => [privatePropertyMethod, propertyMethod, method]
  | staticMethod => [staticMethod, method]
  | privateStaticMethod => [privateStaticMethod, staticMethod, method]
  | classMethod => [classMethod, method]
  | privateClassMethod => [privateClassMethod, classMethod, method]
  | docstring | pass | ifBlock | expression => []

/-- A listed order can place the category. -/
def isConfigurable (c : Category) : Bool :=
  !c.path.isEmpty

def configurable : List Category :=
  all.filter isConfigurable

theorem mem_all (c : Category) : c ∈ all := by
  cases c <;> decide

theorem name_injective {a b : Category} (same : a.name = b.name) : a = b := by
  revert same
  cases a <;> cases b <;> simp [name]

/-- A text names a category exactly if it is the category's name. -/
theorem ofName?_eq_some_iff {text : String} {c : Category} :
    ofName? text = some c ↔ c.name = text := by
  constructor
  · intro found
    simpa using List.find?_some found
  · rintro rfl
    cases found : ofName? c.name with
    | none =>
      have other := List.find?_eq_none.mp found c (mem_all c)
      simp at other
    | some d =>
      have same : d.name = c.name := by simpa using List.find?_some found
      rw [name_injective same]

theorem ofName?_eq_none_iff {text : String} : ofName? text = none ↔ text ∉ all.map name := by
  simp only [ofName?, List.find?_eq_none, beq_iff_eq, List.mem_map, not_exists, not_and]

theorem index_injective {a b : Category} (same : a.index = b.index) : a = b := by
  revert same
  cases a <;> cases b <;> decide

end Category

end MemberOrder

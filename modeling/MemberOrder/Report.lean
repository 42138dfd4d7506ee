import MemberOrder.WeightTable.Json

/-!
# Reports

The tables that the commands print, as text in columns or as spread-out JSON.
-/

namespace MemberOrder

inductive Format
  | text
  | json
  deriving DecidableEq, Repr

namespace Report

/-- Fills a column on the right; a longer text is not cut. -/
def padRight (width : Nat) (text : String) : String :=
  text ++ String.ofList (List.replicate (width - text.length) ' ')

def padLeft (width : Nat) (text : String) : String :=
  String.ofList (List.replicate (width - text.length) ' ') ++ text

def rule (width : Nat) : String :=
  String.ofList (List.replicate width '-')

/-- Each line with its newline. -/
def lines (texts : List String) : String :=
  String.join (texts.map (· ++ "\n"))

/-- Entries by weight, and in canonical order where weights are equal. -/
def byWeight (t : WeightTable) : List (Category × Weight) :=
  t.entries.mergeSort fun a b => a.2 ≤ b.2

def weightRow (e : Category × Weight) : String :=
  padRight 8 (toString e.2.toNat) ++ " " ++ e.1.name

def weightsText (t : WeightTable) : String :=
  lines ((padRight 8 "Weight" ++ " Category") :: rule 40 :: (byWeight t).map weightRow)

def weights (t : WeightTable) : Format → String
  | .text => weightsText t
  | .json => t.toJson.pretty ++ "\n"

structure CategoryRow where
  category : Category
  default : Option Weight
  strict : Option Weight
  deriving DecidableEq, Repr

def categoryRows : List CategoryRow :=
  Category.all.map fun c => ⟨c, WeightTable.default.get c, WeightTable.strict.get c⟩

namespace CategoryRow

def cell (w : Option Weight) : String :=
  (w.map fun w => toString w.toNat).getD "-"

def fallback (r : CategoryRow) : String :=
  if r.category.path.isEmpty then "(fixed)"
  else " -> ".intercalate (r.category.path.map Category.name)

def line (name default strict fallback : String) : String :=
  padRight 25 name ++ " " ++ padLeft 7 default ++ " " ++ padLeft 7 strict ++ "  " ++ fallback

def text (r : CategoryRow) : String :=
  line r.category.name (cell r.default) (cell r.strict) r.fallback

def weightJson (w : Option Weight) : Json :=
  match w with
  | some w => .integer w.toNat
  | none => .null

def toJson (r : CategoryRow) : Json :=
  .object
    [("name", .string r.category.name), ("default", weightJson r.default),
      ("strict", weightJson r.strict),
      ("path", .array (r.category.path.map fun c => .string c.name))]

end CategoryRow

def categoriesText : String :=
  lines (CategoryRow.line "Category" "Default" "Strict" "Fallback" :: rule 80 ::
    categoryRows.map CategoryRow.text)

def categories : Format → String
  | .text => categoriesText
  | .json => (Json.array (categoryRows.map CategoryRow.toJson)).pretty ++ "\n"

end Report

end MemberOrder

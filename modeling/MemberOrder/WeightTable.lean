import MemberOrder.Category
import MemberOrder.Lookup

/-!
# Weight tables

A weight table assigns sort weights to categories; a category may be absent. The
entries are kept strictly ascending in canonical order, so a table is determined
by its look-ups and lists its rows in one way only.
-/

namespace MemberOrder

/-- A lower weight stands earlier in the class body. -/
abbrev Weight := UInt32

structure WeightTable where
  entries : List (Category × Weight)
  ascending : entries.Pairwise (fun a b => a.1 < b.1) := by decide
  deriving DecidableEq

namespace WeightTable

/-- Puts an entry in its place, over an earlier entry of the same category. -/
def insertEntry (c : Category) (w : Weight) :
    List (Category × Weight) → List (Category × Weight)
  | [] => [(c, w)]
  | (d, v) :: rest =>
    if c < d then (c, w) :: (d, v) :: rest
    else if c = d then (c, w) :: rest
    else (d, v) :: insertEntry c w rest

theorem mem_insertEntry {c : Category} {w : Weight} {e : Category × Weight} :
    ∀ {l : List (Category × Weight)}, e ∈ insertEntry c w l → e = (c, w) ∨ e ∈ l
  | [], h => by simpa [insertEntry] using h
  | (d, v) :: rest, h => by
    simp only [insertEntry] at h
    split at h
    · simpa using h
    · split at h
      · rcases List.mem_cons.mp h with h | h
        · exact .inl h
        · exact .inr (List.mem_cons_of_mem _ h)
      · rcases List.mem_cons.mp h with h | h
        · exact .inr (by simp [h])
        · rcases mem_insertEntry h with h | h
          · exact .inl h
          · exact .inr (List.mem_cons_of_mem _ h)

theorem ascending_insertEntry (c : Category) (w : Weight) :
    ∀ {l : List (Category × Weight)}, l.Pairwise (fun a b => a.1 < b.1) →
      (insertEntry c w l).Pairwise (fun a b => a.1 < b.1)
  | [], _ => by simp [insertEntry]
  | (d, v) :: rest, h => by
    have tail : ∀ e ∈ rest, d < e.1 := fun _ he => List.rel_of_pairwise_cons h he
    simp only [insertEntry]
    split
    · next lt =>
      refine List.pairwise_cons.mpr ⟨fun e he => ?_, h⟩
      rcases List.mem_cons.mp he with rfl | he
      · exact lt
      · exact Nat.lt_trans lt (tail _ he)
    · next notLt =>
      split
      · next same =>
        subst same
        exact List.pairwise_cons.mpr ⟨fun e he => tail e he, h.of_cons⟩
      · next differ =>
        refine List.pairwise_cons.mpr ⟨fun e he => ?_, ascending_insertEntry c w h.of_cons⟩
        rcases mem_insertEntry he with rfl | he
        · have ne : c.index ≠ d.index := fun same => differ (Category.index_injective same)
          exact Nat.lt_of_le_of_ne (Nat.le_of_not_lt notLt) ne.symm
        · exact tail _ he

theorem lookup_insertEntry (c d : Category) (w : Weight) :
    ∀ l : List (Category × Weight),
      (insertEntry c w l).lookup d = if d = c then some w else l.lookup d
  | [] => by rw [insertEntry, lookup_entry]
  | (e, v) :: rest => by
    simp only [insertEntry]
    split
    · rw [lookup_entry]
    · split
      · next same =>
        subst same
        rw [lookup_entry, lookup_entry]
        by_cases found : d = c <;> simp [found]
      · next differ =>
        rw [lookup_entry, lookup_entry, lookup_insertEntry c d w rest]
        by_cases found : d = e
        · simp [found, Ne.symm differ]
        · simp [found]

def empty : WeightTable :=
  ⟨[], .nil⟩

def insert (t : WeightTable) (c : Category) (w : Weight) : WeightTable :=
  ⟨insertEntry c w t.entries, ascending_insertEntry c w t.ascending⟩

/-- Collects pairs; of two weights for one category the later counts. -/
def ofList (pairs : List (Category × Weight)) : WeightTable :=
  pairs.foldl (fun t e => t.insert e.1 e.2) empty

def get (t : WeightTable) (c : Category) : Option Weight :=
  t.entries.lookup c

@[simp] theorem get_empty (c : Category) : empty.get c = none := rfl

/-- Inserting changes the look-up of its own category alone. -/
@[simp] theorem get_insert (t : WeightTable) (c d : Category) (w : Weight) :
    (t.insert c w).get d = if d = c then some w else t.get d :=
  lookup_insertEntry c d w t.entries

/-- Inserts, and gives the weight that stood there before. -/
def replace (t : WeightTable) (c : Category) (w : Weight) : Option Weight × WeightTable :=
  (t.get c, t.insert c w)

def weightOf (t : WeightTable) (name : String) : Option Weight :=
  (Category.ofName? name).bind t.get

def contains (t : WeightTable) (c : Category) : Bool :=
  (t.get c).isSome

def size (t : WeightTable) : Nat :=
  t.entries.length

def isEmpty (t : WeightTable) : Bool :=
  t.entries.isEmpty

/-- Compares by weight; there is no answer unless both categories have one. -/
def compare (t : WeightTable) (a b : Category) : Option Ordering := do
  let v ← t.get a
  let w ← t.get b
  return Ord.compare v w

/-- One line `name = weight` per entry, with no newline at the end. -/
def text (t : WeightTable) : String :=
  "\n".intercalate (t.entries.map fun e => e.1.name ++ " = " ++ toString e.2.toNat)

/-- The built-in table: private variants share the weight of their public sibling. -/
def default : WeightTable where
  entries :=
    [(.docstring, 0), (.pass, 1), (.metaClass, 2), (.nestedClass, 3), (.constant, 4), (.field, 5),
      (.outerField, 6), (.ifBlock, 7), (.expression, 8), (.new, 9), (.init, 10), (.postInit, 11),
      (.str, 12), (.save, 13), (.delete, 14), (.propertyMethod, 20), (.privatePropertyMethod, 20),
      (.staticMethod, 22), (.privateStaticMethod, 22), (.classMethod, 24),
      (.privateClassMethod, 24), (.method, 26), (.magicMethod, 27), (.privateMethod, 27)]

/-- The built-in table of strict mode: private variants follow their public sibling. -/
def strict : WeightTable where
  entries :=
    [(.docstring, 0), (.pass, 1), (.metaClass, 2), (.nestedClass, 3), (.constant, 4), (.field, 5),
      (.outerField, 6), (.ifBlock, 7), (.expression, 8), (.new, 9), (.init, 10), (.postInit, 11),
      (.str, 12), (.save, 13), (.delete, 14), (.propertyMethod, 20), (.privatePropertyMethod, 21),
      (.staticMethod, 22), (.privateStaticMethod, 23), (.classMethod, 24),
      (.privateClassMethod, 25), (.method, 26), (.magicMethod, 27), (.privateMethod, 28)]

/-- The head of the class, which every listed order leaves in place. -/
def fixed : WeightTable where
  entries := [(.docstring, 0), (.pass, 1), (.ifBlock, 3), (.expression, 2)]

end WeightTable

end MemberOrder

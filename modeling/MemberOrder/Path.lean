import MemberOrder.Text.Pieces

/-!
# Paths as texts

A path is the text a user writes; nothing here asks a file system. Its head is
`/` for an absolute path, a leading `.`, or nothing. The body behind the head is
cut at slashes; an empty piece or a `.` in the body is blank and names nothing,
while `..` is an ordinary piece.
-/

namespace MemberOrder

structure Path where
  chars : List Char
  deriving DecidableEq, Repr

namespace Path

open Text

def ofString (text : String) : Path :=
  ⟨text.toList⟩

def toString (p : Path) : String :=
  String.ofList p.chars

instance : ToString Path := ⟨Path.toString⟩

def isAbsolute (p : Path) : Bool :=
  p.chars.head? == some '/'

/-- What comes before the body: `/`, a leading `.` that is a piece of its own, or nothing. -/
def head (p : Path) : List Char :=
  match p.chars with
  | '/' :: _ => ['/']
  | ['.'] => ['.']
  | '.' :: '/' :: _ => ['.']
  | _ => []

def body (p : Path) : List Char :=
  p.chars.drop p.head.length

def blank (piece : List Char) : Bool :=
  piece.isEmpty || piece == ['.']

/-- The components that the text names: the head, then every piece that is not blank. -/
def components (p : Path) : List (List Char) :=
  (if p.head.isEmpty then [] else [p.head]) ++ (cut '/' p.body).filter fun piece => !blank piece

/-- The path without its last component. The blank pieces around the component go with it.
A leading `.` counts as the last component once nothing follows it; the root and the empty
path have no parent. -/
def parent? (p : Path) : Option Path :=
  match (cut '/' p.body).reverse.dropWhile blank with
  | [] => if p.head = ['.'] then some ⟨[]⟩ else none
  | _ :: before => some ⟨p.head ++ glue '/' (before.dropWhile blank).reverse⟩

theorem head_append_body (p : Path) : p.head ++ p.body = p.chars := by
  unfold body head
  split
  · next eq => simp [eq]
  · next eq => simp [eq]
  · next eq => simp [eq]
  · simp

/-- Pieces around the last one with a name: in front of it those that a parent keeps and blank
ones, behind it blank ones only. -/
structure LastNamed (pieces kept : List (List Char)) (last : List Char) : Prop where
  named : blank last = false
  split : ∃ middle after, pieces = kept ++ (middle ++ last :: after) ∧
    (∀ piece ∈ middle, blank piece = true) ∧ ∀ piece ∈ after, blank piece = true
  solid : ∀ piece, kept.getLast? = some piece → blank piece = false

theorem lastNamed_of_dropWhile {pieces before : List (List Char)} {last : List Char}
    (found : pieces.reverse.dropWhile blank = last :: before) :
    LastNamed pieces (before.dropWhile blank).reverse last where
  named := by
    have first := List.head?_dropWhile_not blank pieces.reverse
    rw [found] at first
    simpa using first
  split := by
    refine ⟨(before.takeWhile blank).reverse, (pieces.reverse.takeWhile blank).reverse, ?_,
      fun piece member => List.all_eq_true.mp List.all_takeWhile piece (List.mem_reverse.mp member),
      fun piece member => List.all_eq_true.mp List.all_takeWhile piece (List.mem_reverse.mp member)⟩
    have whole := List.takeWhile_append_dropWhile (p := blank) (l := pieces.reverse)
    rw [found] at whole
    rw [← List.append_assoc, ← List.reverse_append, List.takeWhile_append_dropWhile]
    simpa using (congrArg List.reverse whole).symm
  solid := by
    intro piece ends
    have first := List.head?_dropWhile_not blank before
    rw [List.getLast?_reverse] at ends
    simpa [ends] using first

theorem blank_of_dropWhile {pieces : List (List Char)}
    (found : pieces.reverse.dropWhile blank = []) : ∀ piece ∈ pieces, blank piece = true := by
  have rest := List.any_dropWhile (p := blank) (l := pieces.reverse)
  simpa [found] using rest

/-- The parent is the empty path above a leading `.`, or what is kept in front of the last name. -/
theorem lastNamed_of_parent? {p q : Path} (above : p.parent? = some q) :
    (p.head = ['.'] ∧ (∀ piece ∈ cut '/' p.body, blank piece = true) ∧ q = ⟨[]⟩) ∨
      ∃ kept last, LastNamed (cut '/' p.body) kept last ∧ q = ⟨p.head ++ glue '/' kept⟩ := by
  unfold parent? at above
  split at above
  · next found =>
    split at above
    · next dot => exact .inl ⟨dot, blank_of_dropWhile found, (Option.some.inj above).symm⟩
    · contradiction
  · next found =>
    exact .inr ⟨_, _, lastNamed_of_dropWhile found, (Option.some.inj above).symm⟩

theorem blank_of_parent?_eq_none {p : Path} (top : p.parent? = none) :
    p.head ≠ ['.'] ∧ ∀ piece ∈ cut '/' p.body, blank piece = true := by
  unfold parent? at top
  split at top
  · next found => exact ⟨fun dot => by simp [dot] at top, blank_of_dropWhile found⟩
  · contradiction

/-- The parent is a text prefix, and something is cut off. -/
theorem exists_of_parent? {p q : Path} (h : p.parent? = some q) :
    ∃ rest, rest ≠ [] ∧ p.chars = q.chars ++ rest := by
  rcases lastNamed_of_parent? h with ⟨dot, _, rfl⟩ | ⟨kept, last, ⟨named, split, _⟩, rfl⟩
  · refine ⟨p.chars, ?_, rfl⟩
    rw [← head_append_body, dot]
    simp
  · obtain ⟨middle, after, pieces, _⟩ := split
    have some_char : last ≠ [] := by
      rintro rfl
      contradiction
    obtain ⟨rest, some_rest, eq⟩ := exists_glue_append kept middle after some_char
    refine ⟨rest, some_rest, ?_⟩
    rw [← pieces, glue_cut] at eq
    rw [← head_append_body, eq, List.append_assoc]

theorem length_lt_of_parent? {p q : Path} (h : p.parent? = some q) :
    q.chars.length < p.chars.length := by
  obtain ⟨rest, some_rest, eq⟩ := exists_of_parent? h
  have := List.length_pos_iff.mpr some_rest
  rw [eq, List.length_append]
  omega

def ancestors (p : Path) : List Path :=
  match _h : p.parent? with
  | none => [p]
  | some q => p :: ancestors q
termination_by p.chars.length
decreasing_by exact length_lt_of_parent? _h

/-- The second path as seen from the first; an absolute one stands for itself. -/
def join (p q : Path) : Path :=
  if q.isAbsolute then q
  else if p.chars.isEmpty || p.chars.getLast? == some '/' then ⟨p.chars ++ q.chars⟩
  else ⟨p.chars ++ '/' :: q.chars⟩

end Path

end MemberOrder

/-!
# Pieces of a text

A text is cut at every occurrence of a separator and glued together again. There is
one piece more than there are separators, so a text without any is one piece.
-/

namespace MemberOrder.Text

def cut (separator : Char) : List Char → List (List Char)
  | [] => [[]]
  | c :: rest =>
    if c = separator then [] :: cut separator rest
    else match cut separator rest with
      | [] => [[c]]
      | piece :: more => (c :: piece) :: more

def glue (separator : Char) : List (List Char) → List Char
  | [] => []
  | [piece] => piece
  | piece :: rest => piece ++ separator :: glue separator rest

variable {separator : Char}

theorem cut_ne_nil (s : List Char) : cut separator s ≠ [] := by
  cases s with
  | nil => simp [cut]
  | cons c rest =>
    unfold cut
    split
    · simp
    · split <;> simp

theorem glue_cut (s : List Char) : glue separator (cut separator s) = s := by
  induction s with
  | nil => rfl
  | cons c rest ih =>
    unfold cut
    split
    · next same =>
      cases found : cut separator rest with
      | nil => exact absurd found (cut_ne_nil rest)
      | cons piece more => rw [found] at ih; simp [glue, ih, same]
    · cases found : cut separator rest with
      | nil => exact absurd found (cut_ne_nil rest)
      | cons piece more =>
        rw [found] at ih
        cases more with
        | nil => simp only [glue] at ih ⊢; rw [ih]
        | cons next more => simp only [glue] at ih ⊢; rw [← ih]; rfl

theorem cut_append_separator (s t : List Char) :
    cut separator (s ++ separator :: t) = cut separator s ++ cut separator t := by
  induction s with
  | nil => simp [cut]
  | cons c rest ih =>
    simp only [List.cons_append, cut, ih]
    split
    · simp
    · cases found : cut separator rest with
      | nil => exact absurd found (cut_ne_nil rest)
      | cons piece more => simp

theorem cut_of_not_mem {piece : List Char} (free : separator ∉ piece) :
    cut separator piece = [piece] := by
  induction piece with
  | nil => rfl
  | cons c rest ih =>
    obtain ⟨other, free⟩ := not_or.mp (mt List.mem_cons.mpr free)
    simp [cut, Ne.symm other, ih free]

theorem not_mem_of_mem_cut {s piece : List Char} (member : piece ∈ cut separator s) :
    separator ∉ piece := by
  induction s generalizing piece with
  | nil => simp_all [cut]
  | cons c rest ih =>
    unfold cut at member
    split at member
    · rcases List.mem_cons.mp member with rfl | later
      · simp
      · exact ih later
    · next other =>
      cases found : cut separator rest with
      | nil => exact absurd found (cut_ne_nil rest)
      | cons first more =>
        rw [found] at member ih
        rcases List.mem_cons.mp member with rfl | later
        · have free := ih List.mem_cons_self
          simp [free, Ne.symm other]
        · exact ih (List.mem_cons_of_mem _ later)

/-- Pieces without the separator are found again. -/
theorem cut_glue {pieces : List (List Char)} (some_piece : pieces ≠ [])
    (free : ∀ piece ∈ pieces, separator ∉ piece) :
    cut separator (glue separator pieces) = pieces := by
  induction pieces with
  | nil => exact absurd rfl some_piece
  | cons piece rest ih =>
    have alone := cut_of_not_mem (free piece List.mem_cons_self)
    cases rest with
    | nil => exact alone
    | cons next more =>
      have ih := ih (by simp) fun other member => free other (List.mem_cons_of_mem _ member)
      rw [glue, cut_append_separator, alone, ih]
      · rfl
      · simp

theorem glue_append {a b : List (List Char)} (ha : a ≠ []) (hb : b ≠ []) :
    glue separator (a ++ b) = glue separator a ++ separator :: glue separator b := by
  induction a with
  | nil => exact absurd rfl ha
  | cons piece rest ih =>
    cases rest with
    | nil =>
      cases b with
      | nil => exact absurd rfl hb
      | cons next more => simp [glue]
    | cons next more =>
      have ih := ih (by simp)
      simp only [List.cons_append, glue] at ih ⊢
      rw [ih]
      simp

theorem glue_ne_nil {piece : List Char} (some_char : piece ≠ []) (rest : List (List Char)) :
    glue separator (piece :: rest) ≠ [] := by
  cases rest with
  | nil => simpa [glue] using some_char
  | cons next more => simp [glue]

theorem glue_eq_intercalate (pieces : List (List Char)) :
    glue separator pieces = [separator].intercalate pieces := by
  induction pieces with
  | nil => rfl
  | cons piece rest ih =>
    cases rest with
    | nil => simp [glue]
    | cons next more =>
      rw [glue, ih]
      · simp [List.intercalate]
      · simp

/-- Pieces behind a kept front lengthen the text if one of them has a character. -/
theorem exists_glue_append (kept middle after : List (List Char)) {piece : List Char}
    (some_char : piece ≠ []) :
    ∃ rest, rest ≠ [] ∧
      glue separator (kept ++ (middle ++ piece :: after)) = glue separator kept ++ rest := by
  by_cases none_kept : kept = []
  · refine ⟨glue separator (middle ++ piece :: after), ?_, by simp [none_kept, glue]⟩
    by_cases none_between : middle = []
    · simpa [none_between] using glue_ne_nil some_char after
    · rw [glue_append none_between (by simp)]
      simp
  · exact ⟨_, by simp, glue_append none_kept (by simp)⟩

end MemberOrder.Text

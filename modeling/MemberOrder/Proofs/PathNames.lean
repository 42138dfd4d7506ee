import Mathlib.Data.List.Infix
import MemberOrder.Path

/-! The names of a path: the pieces of its text that are not blank. Going to the parent
takes the last name away and leaves the others, so the directories above a path are the
prefixes of its names, the longest first. -/
namespace MemberOrder.Path

open Text

def namesIn (s : List Char) : List (List Char) :=
  (cut '/' s).filter fun piece => !blank piece

def names (p : Path) : List (List Char) :=
  namesIn p.chars

variable {p q d : Path}

theorem namesIn_append_slash (s t : List Char) :
    namesIn (s ++ '/' :: t) = namesIn s ++ namesIn t := by
  simp [namesIn, cut_append_separator]

theorem namesIn_slash (s : List Char) : namesIn ('/' :: s) = namesIn s :=
  namesIn_append_slash [] s

theorem namesIn_dot_slash (s : List Char) : namesIn ('.' :: '/' :: s) = namesIn s :=
  namesIn_append_slash ['.'] s

theorem namesIn_glue {pieces : List (List Char)} (free : ∀ piece ∈ pieces, '/' ∉ piece) :
    namesIn (glue '/' pieces) = pieces.filter fun piece => !blank piece := by
  cases pieces with
  | nil => rfl
  | cons piece rest => rw [namesIn, cut_glue (by simp) free]

/-- A text that may stand behind a head: behind a leading `.` a slash or nothing. -/
inductive Continues : List Char → List Char → Prop
  | root (s : List Char) : Continues ['/'] s
  | dot : Continues ['.'] []
  | dotSlash (s : List Char) : Continues ['.'] ('/' :: s)
  | plain {s : List Char} : s.head? ≠ some '/' → Continues [] s

theorem continues_body (p : Path) : Continues p.head p.body := by
  unfold body head
  split
  · exact .root _
  · next only => simpa [only] using Continues.dot
  · next dotted => simpa [dotted] using Continues.dotSlash _
  · next notRooted _ _ =>
    refine .plain ?_
    cases eq : p.chars <;> simp_all

/-- A front part continues the head as well. -/
theorem Continues.of_append {h s t : List Char} (whole : Continues h (s ++ t)) :
    Continues h s := by
  generalize eq : s ++ t = u at whole
  cases whole with
  | root => exact .root s
  | dot =>
    rw [(List.append_eq_nil_iff.mp eq).1]
    exact .dot
  | dotSlash u =>
    rcases List.append_eq_cons_iff.mp eq with ⟨rfl, _⟩ | ⟨rest, rfl, _⟩
    · exact .dot
    · exact .dotSlash rest
  | plain notRooted =>
    subst eq
    refine .plain fun first => notRooted ?_
    simp [List.head?_append, first]

theorem Continues.namesIn_append {h s : List Char} (behind : Continues h s) :
    namesIn (h ++ s) = namesIn s := by
  cases behind with
  | root => exact namesIn_slash s
  | dot => rfl
  | dotSlash s => rw [List.singleton_append, namesIn_dot_slash, namesIn_slash]
  | plain => rfl

theorem Continues.isAbsolute_append {h s : List Char} (behind : Continues h s) :
    isAbsolute ⟨h ++ s⟩ = (h == ['/']) := by
  cases behind with
  | root | dot | dotSlash => rfl
  | plain notRooted => simpa [isAbsolute] using notRooted

/-- The head of a path names nothing. -/
theorem names_eq_namesIn_body (p : Path) : p.names = namesIn p.body := by
  rw [names, ← head_append_body, (continues_body p).namesIn_append]

theorem isAbsolute_eq_head (p : Path) : p.isAbsolute = (p.head == ['/']) := by
  rw [← (continues_body p).isAbsolute_append, head_append_body]

theorem filter_of_blank {pieces : List (List Char)} (blanks : ∀ piece ∈ pieces, blank piece = true) :
    (pieces.filter fun piece => !blank piece) = [] := by
  simpa [List.filter_eq_nil_iff] using blanks

theorem names_of_blank (blanks : ∀ piece ∈ cut '/' p.body, blank piece = true) : p.names = [] := by
  rw [names_eq_namesIn_body]
  exact filter_of_blank blanks

/-- The pieces that the parent keeps are those in front of the last name. -/
theorem LastNamed.names_eq {kept : List (List Char)} {last : List Char}
    (splits : LastNamed (cut '/' p.body) kept last) :
    p.names = (kept.filter fun piece => !blank piece) ++ [last] := by
  obtain ⟨named, ⟨middle, after, pieces, blanks, further⟩, _⟩ := splits
  rw [names_eq_namesIn_body, namesIn, pieces, List.filter_append, List.filter_append,
    filter_of_blank blanks, List.nil_append, List.filter_cons_of_pos (by simp [named]),
    filter_of_blank further]

/-- A parent is the empty path above a leading `.`, or what stands in front of the last name. -/
theorem parent?_cases (above : p.parent? = some q) :
    (p.head = ['.'] ∧ p.names = [] ∧ q = ⟨[]⟩) ∨
      ∃ kept last, q = ⟨p.head ++ glue '/' kept⟩ ∧ Continues p.head (glue '/' kept) ∧
        (∀ piece ∈ kept, '/' ∉ piece) ∧
        p.names = (kept.filter fun piece => !blank piece) ++ [last] := by
  obtain ⟨rest, _, whole⟩ := exists_of_parent? above
  rcases lastNamed_of_parent? above with ⟨dot, blanks, same⟩ | ⟨kept, last, splits, rfl⟩
  · exact .inl ⟨dot, names_of_blank blanks, same⟩
  · refine .inr ⟨kept, last, rfl, ?_, fun piece member => ?_, splits.names_eq⟩
    · rw [← head_append_body, List.append_assoc, List.append_cancel_left_eq] at whole
      exact (whole ▸ continues_body p).of_append
    · obtain ⟨middle, after, pieces, _⟩ := splits.split
      exact not_mem_of_mem_cut (pieces ▸ List.mem_append_left _ member)

/-- A path without a parent names nothing. -/
theorem names_of_parent?_eq_none (top : p.parent? = none) : p.names = [] :=
  names_of_blank (blank_of_parent?_eq_none top).2

/-- The parent keeps all names but the last; above a leading `.` no name is left to lose. -/
theorem names_of_parent?_eq_some (above : p.parent? = some q) :
    (∃ last, p.names = q.names ++ [last]) ∨
      (p.isAbsolute = false ∧ p.names = [] ∧ q.names = []) := by
  rcases parent?_cases above with ⟨dot, none_left, rfl⟩ | ⟨kept, last, rfl, behind, free, named⟩
  · refine .inr ⟨?_, none_left, rfl⟩
    rw [isAbsolute_eq_head, dot]
    rfl
  · refine .inl ⟨last, ?_⟩
    rw [named, names, behind.namesIn_append, namesIn_glue free]

theorem isAbsolute_of_parent?_eq_some (above : p.parent? = some q) :
    q.isAbsolute = p.isAbsolute := by
  rw [isAbsolute_eq_head p]
  rcases parent?_cases above with ⟨dot, _, rfl⟩ | ⟨kept, _, rfl, behind, _, _⟩
  · rw [dot]
    rfl
  · exact behind.isAbsolute_append

theorem ancestors_of_parent?_eq_none (top : p.parent? = none) : p.ancestors = [p] := by
  rw [ancestors]
  split
  · rfl
  · simp_all

theorem ancestors_of_parent?_eq_some (above : p.parent? = some q) :
    p.ancestors = p :: q.ancestors := by
  rw [ancestors]
  split
  · simp_all
  · simp_all

/-- A directory above lacks some of the last names, and starts where the path starts. -/
theorem exists_of_mem_ancestors (member : d ∈ p.ancestors) :
    d.isAbsolute = p.isAbsolute ∧ ∃ dropped, p.names = d.names ++ dropped := by
  induction p using ancestors.induct with
  | case1 p top =>
    rw [ancestors_of_parent?_eq_none top, List.mem_singleton] at member
    exact ⟨member ▸ rfl, [], by simp [member]⟩
  | case2 p q above ih =>
    rw [ancestors_of_parent?_eq_some above] at member
    rcases List.mem_cons.mp member with rfl | further
    · exact ⟨rfl, [], by simp⟩
    · obtain ⟨sameStart, dropped, split⟩ := ih further
      refine ⟨sameStart.trans (isAbsolute_of_parent?_eq_some above), ?_⟩
      rcases names_of_parent?_eq_some above with ⟨last, named⟩ | ⟨_, none_left, none_above⟩
      · exact ⟨dropped ++ [last], by rw [named, split, List.append_assoc]⟩
      · exact ⟨dropped, by rw [none_left, ← none_above, split]⟩

/-- A search of the directories above a path is one of the prefixes of its names. -/
theorem findSome?_ancestors {α : Type} (look : List (List Char) → Option α) (p : Path) :
    (p.ancestors.findSome? fun d => look d.names) = p.names.inits.reverse.findSome? look := by
  induction p using ancestors.induct with
  | case1 p top => simp [ancestors_of_parent?_eq_none top, names_of_parent?_eq_none top]
  | case2 p q above ih =>
    rw [ancestors_of_parent?_eq_some above, List.findSome?_cons, ih]
    rcases names_of_parent?_eq_some above with ⟨last, named⟩ | ⟨_, none_left, none_above⟩
    · simp [named, List.inits_append, List.findSome?_cons]
    · rw [none_left, none_above]
      cases found : look [] <;> simp [found]

/-- The text of a path seen from another one: one slash stands in between. -/
theorem join_cases (p : Path) (relative : q.isAbsolute = false) :
    (p.chars = [] ∧ p.join q = q) ∨
      ∃ front, (p.join q).chars = front ++ '/' :: q.chars ∧
        (p.chars = front ++ ['/'] ∨ p.chars = front ∧ front ≠ []) := by
  unfold join
  rw [relative]
  by_cases empty : p.chars = []
  · exact .inl ⟨empty, by simp [empty]⟩
  · refine .inr ?_
    by_cases slash : p.chars.getLast? = some '/'
    · obtain ⟨front, eq⟩ := List.getLast?_eq_some_iff.mp slash
      exact ⟨front, by simp [eq], .inl eq⟩
    · exact ⟨p.chars, by simp [empty, slash], .inr ⟨rfl, empty⟩⟩

theorem isAbsolute_join (p : Path) (relative : q.isAbsolute = false) :
    (p.join q).isAbsolute = p.isAbsolute := by
  rcases join_cases p relative with ⟨empty, same⟩ | ⟨front, joined, ended | ⟨same, some_char⟩⟩
  · rw [same, relative, isAbsolute, empty]
    rfl
  · simp only [isAbsolute, joined, ended]
    cases front <;> rfl
  · obtain ⟨c, rest, rfl⟩ := List.exists_cons_of_ne_nil some_char
    simp [isAbsolute, joined, same]

/-- The names of a path behind another follow the names of that one. -/
theorem names_join (p : Path) (relative : q.isAbsolute = false) :
    (p.join q).names = p.names ++ q.names := by
  rcases join_cases p relative with ⟨empty, same⟩ | ⟨front, joined, ended | ⟨same, _⟩⟩
  · rw [same, names, names, empty]
    rfl
  · rw [names, joined, namesIn_append_slash, names, ended, namesIn_append_slash]
    simp [namesIn, cut, blank, names]
  · rw [names, joined, namesIn_append_slash, names, names, same]

end MemberOrder.Path

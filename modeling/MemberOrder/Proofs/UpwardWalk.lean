import Mathlib.Data.List.Chain
import MemberOrder.Proofs.FilePriority
import MemberOrder.Proofs.PathNames

/-! The upward walk over the directories of a path. Every step takes away the last component and
the blank pieces around it, so the text gets shorter at its end and the components are one fewer.
The walk ends where no component is left to take: at the empty path, or at the root. -/
namespace MemberOrder

namespace Path

open Text

variable {p q : Path}

structure OneUp (d above : Path) : Prop where
  front : above.chars <+: d.chars
  shorter : above.chars.length < d.chars.length
  component : ∃ last, d.components = above.components ++ [last]

section Components

theorem components_eq_head (p : Path) :
    p.components = (if p.head.isEmpty then [] else [p.head]) ++ p.names := by
  rw [names_eq_namesIn_body]
  rfl

theorem head_cases (p : Path) : p.head = ['/'] ∨ p.head = ['.'] ∨ p.head = [] := by
  unfold head
  split <;> simp

/-- The first piece is a dot if the text is one, or begins with one and a slash. -/
theorem head?_cut_eq_dot_iff (s : List Char) :
    (cut '/' s).head? = some ['.'] ↔ s = ['.'] ∨ ∃ behind, s = '.' :: '/' :: behind := by
  constructor
  · intro first
    obtain ⟨more, pieces⟩ := List.head?_eq_some_iff.mp first
    have glued : glue '/' (cut '/' s) = s := glue_cut s
    rw [pieces] at glued
    cases more with
    | nil => exact .inl glued.symm
    | cons next more => exact .inr ⟨_, glued.symm⟩
  · rintro (rfl | ⟨behind, rfl⟩)
    · rfl
    · simp [cut]

/-- A path has a head if it is absolute or its first piece is a dot. -/
theorem head_eq (p : Path) :
    p.head = if p.isAbsolute then ['/']
      else if (cut '/' p.chars).head? = some ['.'] then ['.'] else [] := by
  have dotFirst := head?_cut_eq_dot_iff p.chars
  unfold head
  split
  · next rooted => simp [isAbsolute, rooted]
  · next dot =>
    rw [if_neg (by simp [isAbsolute, dot]), if_pos (dotFirst.mpr (.inl dot))]
  · next behind dotted =>
    rw [if_neg (by simp [isAbsolute, dotted]), if_pos (dotFirst.mpr (.inr ⟨_, dotted⟩))]
  · next notRooted notDot notDotted =>
    have relative : ¬p.isAbsolute = true := by
      intro rooted
      obtain ⟨rest, eq⟩ := List.head?_eq_some_iff.mp (beq_iff_eq.mp rooted)
      exact notRooted rest eq
    have noDot : ¬(cut '/' p.chars).head? = some ['.'] := by
      intro first
      rcases dotFirst.mp first with dot | ⟨behind, dotted⟩
      · exact notDot dot
      · exact notDotted behind dotted
    rw [if_neg relative, if_neg noDot]

/-- The root or a leading dot, then every piece that is neither empty nor a dot. -/
theorem components_eq (p : Path) :
    p.components =
      (if p.isAbsolute then [['/']]
        else if (cut '/' p.chars).head? = some ['.'] then [['.']] else []) ++
        (cut '/' p.chars).filter fun piece => piece ≠ [] ∧ piece ≠ ['.'] := by
  have named : p.names = (cut '/' p.chars).filter fun piece => piece ≠ [] ∧ piece ≠ ['.'] := by
    refine List.filter_congr fun piece _ => ?_
    rw [Bool.eq_iff_iff]
    simp [blank]
  rw [components_eq_head, named, head_eq]
  split
  · rfl
  · split <;> rfl

end Components

section Steps

/-- What follows a slash has no part in the head. -/
theorem head_append_slash {s : List Char} (someChar : s ≠ []) (behind : List Char) :
    head ⟨s ++ '/' :: behind⟩ = head ⟨s⟩ := by
  obtain ⟨c, rest, rfl⟩ := List.exists_cons_of_ne_nil someChar
  unfold head
  cases rest with
  | nil => split <;> split <;> simp_all
  | cons d rest => split <;> split <;> simp_all

theorem head_of_front {front behind : List Char} (split : p.body = front ++ '/' :: behind) :
    head ⟨p.head ++ front⟩ = p.head := by
  have whole : p.chars = (p.head ++ front) ++ '/' :: behind := by
    rw [List.append_assoc, ← split, head_append_body]
  have same : p = ⟨(p.head ++ front) ++ '/' :: behind⟩ := congrArg Path.mk whole
  by_cases someChar : p.head ++ front = []
  · rw [someChar, List.nil_append] at same
    have rooted : p.head = ['/'] := by rw [same]; rfl
    simp [rooted] at someChar
  · rw [← head_append_slash someChar behind, ← same]

/-- The parent begins as the path does, except above a leading dot with nothing behind it. -/
theorem head_of_parent? (above : p.parent? = some q) (named : p.names ≠ []) : q.head = p.head := by
  rcases lastNamed_of_parent? above with ⟨_, blanks, _⟩ | ⟨kept, last, splits, rfl⟩
  · exact absurd (names_of_blank blanks) named
  · obtain ⟨middle, after, pieces, _⟩ := splits.split
    have glued : glue '/' (cut '/' p.body) = p.body := glue_cut p.body
    by_cases noneKept : kept = []
    · rw [noneKept, glue, List.append_nil]
      rcases head_cases p with root | dot | bare
      · rw [root]; rfl
      · rw [dot]; rfl
      · rw [bare]; rfl
    · rw [pieces, glue_append noneKept (by simp)] at glued
      exact head_of_front glued.symm

theorem exists_component_of_parent? (above : p.parent? = some q) :
    ∃ last, p.components = q.components ++ [last] := by
  rcases parent?_cases above with ⟨dot, none_left, rfl⟩ | ⟨kept, last, eq, behind, free, named⟩
  · exact ⟨['.'], by rw [components_eq_head, dot, none_left]; rfl⟩
  · have sameHead : q.head = p.head := head_of_parent? above (by simp [named])
    have kept_names : q.names = kept.filter fun piece => !blank piece := by
      rw [eq, names, behind.namesIn_append, namesIn_glue free]
    refine ⟨last, ?_⟩
    rw [components_eq_head, components_eq_head, sameHead, kept_names, named, List.append_assoc]

theorem oneUp_of_parent? (above : p.parent? = some q) : OneUp p q where
  front := by
    obtain ⟨rest, _, whole⟩ := exists_of_parent? above
    exact whole ▸ List.prefix_append q.chars rest
  shorter := length_lt_of_parent? above
  component := exists_component_of_parent? above

/-- The text of a relative path starts with a name or a leading dot, if it starts at all. -/
theorem chars_eq_nil_of_names (bare : p.head = []) (unnamed : p.names = []) : p.chars = [] := by
  have someCut : cut '/' p.chars ≠ [] := cut_ne_nil p.chars
  obtain ⟨first, more, pieces⟩ := List.exists_cons_of_ne_nil someCut
  have glued : glue '/' (first :: more) = p.chars := pieces ▸ glue_cut p.chars
  have relative : ¬p.isAbsolute = true := by
    intro rooted
    rw [head_eq, if_pos rooted] at bare
    contradiction
  have noDot : first ≠ ['.'] := by
    intro dot
    rw [head_eq, if_neg relative, if_pos (by rw [pieces, dot]; rfl)] at bare
    contradiction
  have empty : first = [] := by
    by_contra someChar
    have member : first ∈ p.names :=
      List.mem_filter.mpr ⟨pieces ▸ List.mem_cons_self, by simp [blank, someChar, noDot]⟩
    simp [unnamed] at member
  cases more with
  | nil => rw [← glued, empty, glue]
  | cons next more =>
    refine absurd ?_ relative
    rw [isAbsolute, ← glued, empty]
    rfl

/-- Only the root and the empty path have no parent. -/
theorem top_of_parent?_eq_none (top : p.parent? = none) :
    if p.isAbsolute then p.components = [['/']] else p.chars = [] := by
  have unnamed := names_of_parent?_eq_none top
  rw [isAbsolute_eq_head]
  rcases head_cases p with root | dot | bare
  · rw [components_eq_head, root, unnamed]
    rfl
  · exact absurd dot (blank_of_parent?_eq_none top).1
  · rw [bare]
    exact chars_eq_nil_of_names bare unnamed

/-- Above the first name of an absolute path no blank pieces are kept. -/
theorem chars_eq_root_of_parent? (above : p.parent? = some q) (rooted : p.isAbsolute = true)
    (unnamed : q.names = []) : q.chars = ['/'] := by
  have root : p.head = ['/'] := by rw [head_eq, if_pos rooted]
  have single : ∃ last, p.names = [last] := by
    rcases names_of_parent?_eq_some above with ⟨last, named⟩ | ⟨relative, _⟩
    · exact ⟨last, by rw [named, unnamed, List.nil_append]⟩
    · rw [rooted] at relative
      contradiction
  rcases lastNamed_of_parent? above with ⟨dot, _, _⟩ | ⟨kept, last, splits, rfl⟩
  · simp [root] at dot
  · rcases List.eq_nil_or_concat kept with rfl | ⟨front, piece, rfl⟩
    · rw [root]
      rfl
    · -- the last piece that is kept would be a name besides the one that is taken away
      rw [List.concat_eq_append] at splits
      have solid : blank piece = false := splits.solid piece List.getLast?_concat
      obtain ⟨name, single⟩ := single
      have lengths := congrArg List.length (single.symm.trans splits.names_eq)
      simp [solid] at lengths

end Steps

section Walks

theorem head?_ancestors (p : Path) : p.ancestors.head? = some p := by
  rw [ancestors]
  split <;> rfl

theorem isChain_ancestors (p : Path) : p.ancestors.IsChain OneUp := by
  induction p using ancestors.induct with
  | case1 p top =>
    rw [ancestors_of_parent?_eq_none top]
    exact List.isChain_singleton p
  | case2 p q above ih =>
    rw [ancestors_of_parent?_eq_some above, List.isChain_cons]
    refine ⟨fun next first => ?_, ih⟩
    rw [head?_ancestors, Option.mem_some_iff] at first
    exact first ▸ oneUp_of_parent? above

/-- Texts only get shorter, so none comes twice. -/
theorem nodup_chars_ancestors (p : Path) : (p.ancestors.map chars).Nodup := by
  have shorter : p.ancestors.IsChain fun d above => above.chars.length < d.chars.length :=
    (isChain_ancestors p).imp fun _ _ step => step.shorter
  have : IsTrans Path fun d above => above.chars.length < d.chars.length :=
    ⟨fun _ _ _ first second => Nat.lt_trans second first⟩
  refine List.pairwise_map.mpr (shorter.pairwise.imp fun {d above} lt same => ?_)
  rw [same] at lt
  exact Nat.lt_irrefl _ lt

/-- One directory for each component, and the empty path. -/
theorem length_ancestors (p : Path) :
    p.ancestors.length = p.components.length + if p.isAbsolute then 0 else 1 := by
  induction p using ancestors.induct with
  | case1 p top =>
    have ends := top_of_parent?_eq_none top
    rw [ancestors_of_parent?_eq_none top, List.length_singleton]
    split at ends
    · next rooted => rw [ends, if_pos rooted, List.length_singleton]
    · next relative =>
      have empty : p = ⟨[]⟩ := congrArg mk ends
      rw [if_neg relative, empty]
      rfl
  | case2 p q above ih =>
    obtain ⟨last, component⟩ := exists_component_of_parent? above
    rw [ancestors_of_parent?_eq_some above, List.length_cons, ih, component,
      isAbsolute_of_parent?_eq_some above, List.length_append, List.length_singleton]
    omega

/-- The walk ends at a path without a parent, the one it starts from or the parent of another. -/
theorem exists_top (p : Path) :
    ∃ top, p.ancestors.getLast? = some top ∧ top.parent? = none ∧
      (top = p ∨ ∃ d ∈ p.ancestors, d.parent? = some top) := by
  induction p using ancestors.induct with
  | case1 p top =>
    rw [ancestors_of_parent?_eq_none top]
    exact ⟨p, rfl, top, .inl rfl⟩
  | case2 p q above ih =>
    obtain ⟨top, last, ends, reached⟩ := ih
    rw [ancestors_of_parent?_eq_some above]
    refine ⟨top, by rw [List.getLast?_cons, last]; rfl, ends, .inr ?_⟩
    rcases reached with rfl | ⟨d, member, step⟩
    · exact ⟨p, List.mem_cons_self, above⟩
    · exact ⟨d, List.mem_cons_of_mem p member, step⟩

/-- A relative path leads up to the empty path. An absolute one leads up to the root, written as a
slash unless the path itself is another spelling of the root. -/
theorem exists_last_ancestor (p : Path) :
    ∃ top, p.ancestors.getLast? = some top ∧
      if p.isAbsolute then top.components = [['/']] ∧ (top = p ∨ top.chars = ['/'])
      else top.chars = [] := by
  obtain ⟨top, last, ends, reached⟩ := exists_top p
  obtain ⟨sameStart, _⟩ := exists_of_mem_ancestors (List.mem_of_getLast? last)
  have bare := top_of_parent?_eq_none ends
  refine ⟨top, last, ?_⟩
  rw [sameStart] at bare
  split at bare
  · next rooted =>
    rw [if_pos rooted]
    refine ⟨bare, reached.imp_right ?_⟩
    rintro ⟨d, member, step⟩
    refine chars_eq_root_of_parent? step ?_ (names_of_parent?_eq_none ends)
    rw [(exists_of_mem_ancestors member).1, rooted]
  · next relative =>
    rw [if_neg relative]
    exact bare

end Walks

end Path

namespace Discovery

open Text

theorem length_projectFiles (project : Path) :
    (projectFiles project).length = 2 * project.ancestors.length := by
  rw [projectFiles, List.length_flatMap]
  simp [Nat.mul_comm]

/-- The search tries the two file names in one directory after the other, from the path as it is
written upwards to the empty path or the root. -/
theorem search_walks_up (project : Path) :
    (∀ d : Path, d.components =
      (if d.isAbsolute then [['/']]
        else if (cut '/' d.chars).head? = some ['.'] then [['.']] else []) ++
        (cut '/' d.chars).filter fun piece => piece ≠ [] ∧ piece ≠ ['.']) ∧
    project.ancestors.head? = some project ∧
    project.ancestors.IsChain Path.OneUp ∧
    (∃ top, project.ancestors.getLast? = some top ∧
      if project.isAbsolute then
        top.components = [['/']] ∧ (top = project ∨ top.chars = ['/'])
      else top.chars = []) ∧
    (project.ancestors.map Path.chars).Nodup ∧
    (∀ isFile, inAncestors? isFile project = (projectFiles project).find? isFile) ∧
    (projectFiles project).length ≤ 2 * (project.components.length + 1) := by
  refine ⟨Path.components_eq, project.head?_ancestors, project.isChain_ancestors,
    project.exists_last_ancestor, project.nodup_chars_ancestors,
    fun isFile => inAncestors?_eq_find? isFile project, ?_⟩
  rw [length_projectFiles, Path.length_ancestors]
  split <;> omega

end Discovery

end MemberOrder

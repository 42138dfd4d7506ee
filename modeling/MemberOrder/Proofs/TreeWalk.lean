import MemberOrder.FileTree
import MemberOrder.Proofs.PathNames

/-! Walking through a tree of files. A blank piece in front of a name changes nothing, a walk
goes on where an earlier one has ended, and without links the pieces alone tell where a walk
that succeeds has led. So a file of a directory is found by the names of the directory. -/
namespace MemberOrder

namespace Path

def start (cwd : Location) (p : Path) : Location :=
  if p.isAbsolute then [] else cwd

structure IsName (p : Path) : Prop where
  noSlash : '/' ∉ p.chars
  notBlank : blank p.chars = false
  notUp : p.chars ≠ ['.', '.']

theorem IsName.isAbsolute {p : Path} (isName : p.IsName) : p.isAbsolute = false := by
  cases eq : p.chars with
  | nil => simp [Path.isAbsolute, eq]
  | cons c rest =>
    have other : c ≠ '/' := fun slash => isName.noSlash (by simp [eq, slash])
    simpa [Path.isAbsolute, eq] using other

theorem IsName.chars_ne_nil {p : Path} (isName : p.IsName) : p.chars ≠ [] := by
  intro empty
  have notBlank := isName.notBlank
  rw [empty] at notBlank
  contradiction

end Path

namespace FileTree

open MemberOrder.Path (blank)

/-- The place that a piece leads to, as far as the piece by itself tells. -/
def stepTo (here : Location) (piece : List Char) : Location :=
  if blank piece then here
  else if piece = ['.', '.'] then here.dropLast
  else here ++ [String.ofList piece]

def holdsFile (tree : FileTree) (here : Location) : Bool :=
  match tree.at? here with
  | some (file _) => true
  | _ => false

variable {tree : FileTree} {cwd here there : Location} {piece : List Char}
  {pieces front rest : List (List Char)} {p d name : Path}

/-- A step succeeds in a directory, and only a name needs a node to lead to. -/
theorem walk_cons_eq_ok_iff :
    tree.walk here (piece :: rest) = .ok there ↔
      (∃ entries, tree.at? here = some (directory entries)) ∧
        (blank piece = false → piece ≠ ['.', '.'] → (tree.at? (stepTo here piece)).isSome) ∧
        tree.walk (stepTo here piece) rest = .ok there := by
  cases stands : tree.at? here with
  | none => simp [walk, stands]
  | some node =>
    cases node with
    | file => simp [walk, stands]
    | directory entries =>
      cases empty : blank piece with
      | true => simp [walk, stands, stepTo, empty]
      | false =>
        by_cases up : piece = ['.', '.']
        · subst up
          simp [walk, stands, stepTo, empty]
        · by_cases reached : (tree.at? (here ++ [String.ofList piece])).isSome <;>
            simp [walk, stands, stepTo, empty, up, reached]

/-- A walk ends where its pieces lead. -/
theorem eq_foldl_of_walk (found : tree.walk here pieces = .ok there) :
    there = pieces.foldl stepTo here := by
  induction pieces generalizing here with
  | nil => simpa [walk] using found.symm
  | cons piece rest ih => exact ih (walk_cons_eq_ok_iff.mp found).2.2

theorem walk_append (tree : FileTree) (here : Location) (front rest : List (List Char)) :
    tree.walk here (front ++ rest) = (tree.walk here front).bind fun there => tree.walk there rest := by
  induction front generalizing here with
  | nil => rfl
  | cons piece front ih =>
    simp only [List.cons_append, walk]
    split
    · rfl
    · rfl
    · split
      · exact ih here
      · split
        · exact ih here.dropLast
        · split
          · exact ih _
          · rfl

theorem walk_blank_cons (empty : blank piece = true) (more : rest ≠ []) :
    tree.walk here (piece :: rest) = tree.walk here rest := by
  obtain ⟨next, rest, rfl⟩ := List.exists_cons_of_ne_nil more
  cases stands : tree.at? here with
  | none => simp [walk, stands]
  | some node => cases node <;> simp [walk, stands, empty]

/-- Blank pieces in front of a last piece may be left out. -/
theorem walk_filter_concat (tree : FileTree) (here : Location) (pieces : List (List Char))
    (last : List Char) :
    tree.walk here (pieces ++ [last]) =
      tree.walk here ((pieces.filter fun piece => !blank piece) ++ [last]) := by
  induction pieces generalizing here with
  | nil => rfl
  | cons piece rest ih =>
    cases empty : blank piece with
    | true => simp [empty, walk_blank_cons, ih]
    | false =>
      simp only [empty, List.filter_cons, Bool.not_false, if_true, List.cons_append, walk, ih]

theorem walk_filter (found : tree.walk here pieces = .ok there) :
    tree.walk here (pieces.filter fun piece => !blank piece) = .ok there := by
  induction pieces generalizing here with
  | nil => exact found
  | cons piece rest ih =>
    obtain ⟨stands, leads, further⟩ := walk_cons_eq_ok_iff.mp found
    have ih := ih further
    cases empty : blank piece with
    | true => simpa [empty, stepTo] using ih
    | false =>
      rw [List.filter_cons_of_pos (by simp [empty])]
      exact walk_cons_eq_ok_iff.mpr ⟨stands, leads, ih⟩

theorem walk_names_of_locate (found : tree.locate cwd p = .ok there) :
    tree.walk (p.start cwd) p.names = .ok there := by
  unfold locate at found
  split at found
  · simp at found
  · exact walk_filter found

/-- A name inside a directory is reached by the names of the directory and itself. -/
theorem locate_join (isName : name.IsName) :
    tree.locate cwd (d.join name) = tree.walk (d.start cwd) (d.names ++ [name.chars]) := by
  have start : (d.join name).start cwd = d.start cwd := by
    simp only [Path.start, Path.isAbsolute_join d isName.isAbsolute]
  have alone := Text.cut_of_not_mem isName.noSlash
  have pieces : ∃ front, Text.cut '/' (d.join name).chars = front ++ [name.chars] ∧
      (front.filter fun piece => !blank piece) = d.names := by
    rcases Path.join_cases d isName.isAbsolute with
      ⟨empty, same⟩ | ⟨front, joined, ended | ⟨same, _⟩⟩
    · refine ⟨[], by rw [same, alone]; rfl, ?_⟩
      rw [Path.names, empty]
      rfl
    · refine ⟨_, by rw [joined, Text.cut_append_separator, alone], ?_⟩
      rw [Path.names, ended, Path.namesIn_append_slash]
      exact (List.append_nil _).symm
    · refine ⟨_, by rw [joined, Text.cut_append_separator, alone], ?_⟩
      rw [Path.names, same, Path.namesIn]
  obtain ⟨front, cutUp, named⟩ := pieces
  have someChar : (d.join name).chars ≠ [] := by
    intro empty
    have last := congrArg List.getLast? cutUp
    rw [empty] at last
    simp [Text.cut, isName.chars_ne_nil.symm] at last
  rw [← named, ← walk_filter_concat, ← cutUp, ← start]
  simp [locate, someChar, Path.start]

/-- The place inside a directory that a name leads to. -/
theorem stepTo_name (here : Location) (isName : name.IsName) :
    stepTo here name.chars = here ++ [name.toString] := by
  simp [stepTo, isName.notBlank, isName.notUp, Path.toString]

theorem isFile_of_walk_eq_error {absence : Sight} (failed : tree.walk here pieces = .error absence) :
    absence.isFile = false := by
  induction pieces generalizing here with
  | nil => simp [walk] at failed
  | cons piece rest ih =>
    unfold walk at failed
    split at failed
    · cases failed
      rfl
    · cases failed
      rfl
    · split at failed
      · exact ih failed
      · split at failed
        · exact ih failed
        · dsimp only at failed
          split at failed
          · exact ih failed
          · cases failed
            rfl

theorem isFile_view (tree : FileTree) (cwd : Location) (p : Path) :
    (tree.view cwd p).isFile = (tree.locate cwd p).toOption.any tree.holdsFile := by
  cases located : tree.locate cwd p with
  | error absence =>
    have noFile : absence.isFile = false := by
      unfold locate at located
      split at located
      · cases located
        rfl
      · exact isFile_of_walk_eq_error located
    simp [view, located, noFile, Except.toOption]
  | ok there =>
    cases stands : tree.at? there with
    | none => simp [view, located, stands, holdsFile, Sight.isFile, Except.toOption]
    | some node =>
      cases node <;> simp [view, located, stands, holdsFile, sight, Sight.isFile, Except.toOption]

/-- Without a piece that leads up a walk stays at or below the place where it starts. -/
theorem isPrefix_foldl_stepTo (noneUp : ['.', '.'] ∉ pieces) :
    here <+: pieces.foldl stepTo here := by
  induction pieces generalizing here with
  | nil => exact List.prefix_refl here
  | cons piece rest ih =>
    obtain ⟨notUp, noneUp⟩ := not_or.mp (mt List.mem_cons.mpr noneUp)
    refine List.IsPrefix.trans ?_ (ih noneUp)
    unfold stepTo
    split
    · exact List.prefix_refl here
    · rw [if_neg (Ne.symm notUp)]
      exact List.prefix_append here _

end FileTree

end MemberOrder

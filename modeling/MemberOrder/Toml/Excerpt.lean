import MemberOrder.Toml.Document

/-!
# Excerpts

An error message quotes the line in which a stretch of text begins, under a note
of its place and above carets that mark it.
-/

namespace MemberOrder.Toml

/-- A line of a text with the part of it that is marked. Lines and columns count from one. -/
structure Excerpt where
  line : Nat
  column : Nat
  content : String
  carets : Nat
  deriving DecidableEq, Repr

def charsBefore (left : Nat) (s : List Char) : List Char :=
  go (bytesLeft s) s
where
  go : Nat → List Char → List Char
  | _, [] => []
  | rest, c :: more => if rest ≤ left then [] else c :: go (rest - c.utf8Size) more

/-- The carets reach to the end of the stretch or of the line, and there is always one. -/
def Excerpt.of (text : String) (span : Span) : Excerpt :=
  let s := text.toList
  let before := charsBefore span.start s
  let ofLine := (before.reverse.takeWhile (· != '\n')).reverse
  let content := ofLine ++ (s.drop before.length).takeWhile (· != '\n')
  { line := before.count '\n' + 1
    column := ofLine.length + 1
    content := String.ofList content
    carets := max 1 (min (span.start - span.stop) (bytesLeft content - ofLine.length)) }

def Excerpt.render (e : Excerpt) : String :=
  let number := toString e.line
  let gutter := String.ofList (List.replicate (number.length + 1) ' ') ++ "|"
  "TOML parse error at line " ++ number ++ ", column " ++ toString e.column ++ "\n" ++
    gutter ++ "\n" ++
    number ++ " | " ++ e.content ++ "\n" ++
    gutter ++ String.ofList (List.replicate e.column ' ' ++ List.replicate e.carets '^') ++ "\n"

end MemberOrder.Toml

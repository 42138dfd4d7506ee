import MemberOrder.Settings.Decoding
import MemberOrder.Toml.Excerpt

/-!
# Settings in TOML

Settings are the top level of a document, visited in the order in which the reader
put the entries there: that of their first appearance, but for a table that a longer
header implied and that got a header of its own later. It is visited where its own
header stands.
-/

namespace MemberOrder

inductive ParseError
  /-- The text is no TOML. -/
  | malformed
  /-- The text is TOML, but not of settings. -/
  | unsuitable (excerpt : Toml.Excerpt) (error : DecodeError Toml.Node)

/-- Of a text that is no TOML the program also prints where and why the reader stopped, which is
left out here. -/
def ParseError.message : ParseError → String
  | .malformed => "Failed to parse config"
  | .unsuitable excerpt error =>
    "Failed to parse config: " ++ excerpt.render ++ error.message ++ "\n"

namespace Settings

/-- Quotes the value an error is about; without one, the top level of the document. -/
def locate (text : String) (d : Toml.Document) (error : DecodeError Toml.Node) : ParseError :=
  .unsuitable (.of text ((error.value?.map Toml.Node.span).getD d.span)) error

def ofDocument (d : Toml.Document) : Except (DecodeError Toml.Node) Settings :=
  ofEntries d.entries

def parse (text : String) : Except ParseError Settings :=
  match Toml.Document.read? text with
  | none => .error .malformed
  | some d => (ofDocument d).mapError (locate text d)

end Settings

end MemberOrder

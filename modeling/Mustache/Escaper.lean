import Mustache.Output

/-!
# Escaping

How the text of a value becomes pieces of the output. What an escaper writes is a function of the
text alone. It may give a text up.
-/

namespace Mustache

/-- The pieces that are written for a text, and the error that ends them. An escaper hands on what the
sink refuses: behind such a piece it writes nothing more, and its own error does not come. -/
structure Escaper where
  pieces : String → List String
  failure : String → Option RenderError := fun _ => none

namespace Escaper

instance : CoeFun Escaper (fun _ => String → List String) := ⟨pieces⟩

def output (e : Escaper) (text : String) : Output := { pieces := e text, failure := e.failure text }

/-- The entity of a character that has a meaning in HTML. -/
def entity? : Char → Option String
  | '&' => some "&amp;"
  | '<' => some "&lt;"
  | '>' => some "&gt;"
  | '"' => some "&quot;"
  | '\'' => some "&#x27;"
  | _ => none

/-- The pieces of a text after a run of plain characters, which is listed newest first. Before each
entity the run is written, be it empty; at the end only if it is not. -/
def htmlPieces : List Char → List Char → List String
  | run, [] => if run.isEmpty then [] else [String.ofList run.reverse]
  | run, c :: r =>
    match entity? c with
    | some entity => String.ofList run.reverse :: entity :: htmlPieces [] r
    | none => htmlPieces (c :: run) r

/-- Characters with a meaning in HTML become entities. -/
def html : Escaper where
  pieces text := htmlPieces [] text.toList

/-- A text as it is, in one piece. -/
def none : Escaper where
  pieces text := [text]

/-- A function of the text, in one piece. -/
def ofFunction (f : String → String) : Escaper where
  pieces text := [f text]

/-- Each piece of one escaping is escaped once more, until an escaping fails. -/
def twice (e : Escaper) : Escaper where
  pieces text := (Output.concat ((e text).map e.output)).pieces
  failure text := (Output.concat ((e text).map e.output)).failure.or (e.failure text)

end Escaper
end Mustache

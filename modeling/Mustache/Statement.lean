import Mustache.Position

/-!
# Statements

What a template says, as a tree: texts, values to be written, and the scopes that a tag opens and an
end tag closes. Adjacent texts are one.
-/

namespace Mustache

inductive Statement where
  | text (content : String)
  | interpolation (name : String) (escape : Bool) (position : Position)
  | sect (name : String) (inverted : Bool) (body : List Statement) (position : Position)
  /-- Includes a template; the indentation goes before every line of it that does not stand alone. -/
  | inclusion (name indent : String) (position : Position)
  /-- Includes a template of which the blocks in the body replace the blocks of the same name. -/
  | parent (name : String) (body : List Statement) (position : Position)
  /-- A part that may be replaced; otherwise its body stands. -/
  | block (name : String) (body : List Statement) (position : Position)
deriving Repr, Inhabited

namespace Statement

/-- Adds a statement to statements that are listed newest first; a text joins the text before it. -/
def push : List Statement → Statement → List Statement
  | .text before :: r, .text content => .text (before ++ content) :: r
  | stmts, s => s :: stmts

end Statement
end Mustache

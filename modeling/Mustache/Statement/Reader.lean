import Mustache.Statement
import Mustache.Line
import Mustache.CompileError

/-!
# The statements of a source

The lines of a source are read one after another. A tag that opens a scope is kept, with the
statements before it, until its end tag comes; an end tag closes the innermost open tag, whose name
it carries.
-/

namespace Mustache
open Text

inductive ScopeKind where
  | sect (inverted : Bool)
  | parent
  | block
deriving DecidableEq, Repr

structure OpenTag where
  kind : ScopeKind
  name : String
  position : Position

/-- The statement of an open tag, once its body is complete. -/
def OpenTag.close (t : OpenTag) (body : List Statement) : Statement :=
  match t.kind with
  | .sect inverted => .sect t.name inverted body t.position
  | .parent => .parent t.name body t.position
  | .block => .block t.name body t.position

/-- The statements of the innermost open tag, newest first, and the open tags, innermost first, each
with the statements before it. -/
structure Outline where
  stmts : List Statement := []
  opened : List (OpenTag × List Statement) := []

/-- A reference is a single point, or segments between points of which none is empty. -/
def ValidReference (name : String) : Prop := name = "." ∨ [] ∉ split (· = '.') name.toList

instance (name : String) : Decidable (ValidReference name) := by unfold ValidReference; infer_instance

namespace Outline

def add (o : Outline) (s : Statement) : Outline := { o with stmts := Statement.push o.stmts s }

def enter (o : Outline) (t : OpenTag) : Outline := { stmts := [], opened := (t, o.stmts) :: o.opened }

/-- Closes the innermost open tag, which must have the name of the end tag. -/
def leave (o : Outline) (name : String) (position : Position) : Except Fault Outline :=
  match o.opened with
  | [] => .error (.sectionMismatch none (some name) position)
  | (t, before) :: r =>
    if t.name = name then .ok { stmts := Statement.push before (t.close o.stmts.reverse), opened := r }
    else .error (.sectionMismatch (some t.name) (some name) position)

/-- Goes on with an outline if a reference is valid. -/
def withReference (name : String) (position : Position) (o : Outline) : Except Fault Outline :=
  if ValidReference name then .ok o else .error (.invalidReference name position)

/-- Reads a tag. Only an inclusion that stands alone is indented: by the indentation of the source
and that of its line. -/
def readTag (indent : String) (line : Line) (o : Outline) (position : Position) (name : String) :
    TagKind → Except Fault Outline
  | .comment => .ok o
  | .interpolation => withReference name position (o.add (.interpolation name true position))
  | .unescaped => withReference name position (o.add (.interpolation name false position))
  | .sectionStart => withReference name position (o.enter ⟨.sect false, name, position⟩)
  | .invertedStart => withReference name position (o.enter ⟨.sect true, name, position⟩)
  | .parentStart => .ok (o.enter ⟨.parent, name, position⟩)
  | .blockStart => .ok (o.enter ⟨.block, name, position⟩)
  | .inclusion => .ok (o.add (.inclusion name (if line.standalone then indent ++ line.indent else "") position))
  | .scopeEnd => o.leave name position

def readToken (indent : String) (line : Line) (o : Outline) (t : LocatedToken) : Except Fault Outline :=
  match t.token with
  | .text content => .ok (o.add (.text content))
  | .newline lineBreak => .ok (o.add (.text lineBreak.text))
  | .delimiters .. => .ok o
  | .tag name kind => readTag indent line o t.position name kind

/-- Reads a line; the indentation goes before it unless it stands alone. -/
def readLine (indent : String) (o : Outline) (line : Line) : Except Fault Outline :=
  let indented := if line.standalone || indent.isEmpty then o else o.add (.text indent)
  line.emitted.foldlM (readToken indent line) indented

def finish (o : Outline) : Except Fault (List Statement) :=
  match o.opened with
  | [] => .ok o.stmts.reverse
  | (t, _) :: _ => .error (.sectionMismatch (some t.name) none t.position)

end Outline

/-- The statements of a source, with an indentation before every line that does not stand alone. -/
def Statement.ofSource (source indent : String) : Except Fault (List Statement) := do
  let read := layout source
  let o ← read.lines.foldlM (Outline.readLine indent) {}
  match read.failure with
  | some cause => .error (.unreadable cause)
  | none => o.finish

end Mustache

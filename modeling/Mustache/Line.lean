import Mustache.Token.Lexer

/-!
# Lines

The tokens of a source, grouped into physical lines. A line that holds one tag which does not
write a value, and nothing else but blanks, stands alone: only its tag contributes to the output.
No token is lost by the grouping (`groupLines_flatten`).
-/

namespace Mustache
open Text

/-- The tokens of a line; a line break can only be the last of them. -/
structure Line where
  tokens : List LocatedToken
deriving DecidableEq

namespace Line

/-- How a token bears on its line standing alone: it may be passed over, it may be the tag that
stands alone, or it forbids it. -/
inductive Role where
  | blank
  | tag
  | content
deriving DecidableEq

def role : Token → Role
  | .newline _ => .blank
  | .text content => if (Token.text content).isBlank then .blank else .content
  | .delimiters .. => .tag
  | .tag _ kind => if kind.standsAlone then .tag else .content

/-- A line stands alone when it holds exactly one tag, which may stand alone, among blanks. -/
def standalone (line : Line) : Bool :=
  let roles := line.tokens.map (role ·.token)
  !roles.contains .content && roles.count .tag == 1

/-- Whether a token of a line contributes to the output: on a line that stands alone, only its tag. -/
def emits (line : Line) (t : LocatedToken) : Bool := !line.standalone || t.token.isTag

def emitted (line : Line) : List LocatedToken := line.tokens.filter line.emits

/-- The leading blanks of a line that stands alone; empty for any other line. -/
def indent (line : Line) : String :=
  match line.standalone, line.tokens.head? with
  | true, some { token := .text content, .. } => content
  | _, _ => ""

def start (line : Line) : Nat := (line.tokens.head?.map (·.start)).getD 0

/-- The byte offset after the last character, the line break included. -/
def stop (line : Line) : Nat := (line.tokens.getLast?.map (·.stop)).getD 0

end Line

/-- The lines that a line break ends, and the tokens after the last of them. -/
def groupLines : List LocatedToken → List Line × List LocatedToken
  | [] => ([], [])
  | t :: r =>
    if t.token.isNewline then (⟨[t]⟩ :: (groupLines r).1, (groupLines r).2)
    else
      match groupLines r with
      | ([], unfinished) => ([], t :: unfinished)
      | (line :: lines, unfinished) => (⟨t :: line.tokens⟩ :: lines, unfinished)

theorem groupLines_flatten (tokens : List LocatedToken) :
    (groupLines tokens).1.flatMap (·.tokens) ++ (groupLines tokens).2 = tokens := by
  induction tokens with
  | nil => rfl
  | cons t r ih =>
    rw [groupLines]
    split
    · simp [ih]
    · split <;> next grouped => simpa [grouped] using ih

structure Layout where
  lines : List Line
  failure : Option SyntaxError

/-- The lines of a source. An unfinished last line counts, but not one that a fault cuts off. -/
def layout (source : String) : Layout :=
  let read := tokenize source
  let (lines, unfinished) := groupLines read.tokens
  let last := if read.failure.isSome || unfinished.isEmpty then [] else [⟨unfinished⟩]
  { lines := lines ++ last, failure := read.failure }

end Mustache

/-!
# Positions

A place in a source as a line and a column, both counted from one. Columns count characters.
-/

namespace Mustache

/-- A line and a column, both from one; positions are ordered by line first. -/
structure Position where
  line : Nat := 1
  column : Nat := 1
deriving DecidableEq, Repr, Inhabited, Ord

namespace Position

/-- The position after a character: only a line feed ends a line. -/
def next (p : Position) (c : Char) : Position :=
  if c = '\n' then { line := p.line + 1, column := 1 } else { p with column := p.column + 1 }

def after (p : Position) (cs : List Char) : Position := cs.foldl next p

/-- A position is shown as its line and column around a colon. -/
def describe (p : Position) : String := s!"{p.line}:{p.column}"

theorem after_append (p : Position) (a b : List Char) : p.after (a ++ b) = (p.after a).after b :=
  List.foldl_append

end Position
end Mustache

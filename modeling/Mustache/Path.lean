import Mustache.Text

/-!
# Paths

Names between slashes. A path may start at the root, and then it stands for itself wherever it is
joined. Normalizing a path leaves neither `.` nor `..` in it.
-/

namespace Mustache
open Text

/-- The names of a path, none of them empty, and whether it starts at the root. -/
structure Path where
  rooted : Bool
  names : List String
deriving DecidableEq, Repr

namespace Path

/-- The path that a text spells; slashes that follow each other or end it mean nothing. -/
def ofString (text : String) : Path where
  rooted := text.toList.head? = some '/'
  names := ((split (· = '/') text.toList).filter (!·.isEmpty)).map String.ofList

/-- The path as a text; the empty one for the place where it starts, if that is not the root. -/
def text (p : Path) : String := (if p.rooted then "/" else "") ++ "/".intercalate p.names

def join (p q : Path) : Path := if q.rooted then q else { p with names := p.names ++ q.names }

/-- One step along a path that has been normalized so far, whose names are listed newest first. There
is nothing above the start. -/
def stepNormal (names : List String) (name : String) : List String :=
  if name = "." then names else if name = ".." then names.tail else name :: names

/-- The path without `.`, and with every `..` taking back the name before it. -/
def normalize (p : Path) : Path := { p with names := (p.names.foldl stepNormal []).reverse }

end Path
end Mustache

/-!
# Settings

How templates are found, what becomes of names that refer to nothing, and how deep compilation may
go.
-/

namespace Mustache

/-- What becomes of a name that is known to refer to nothing. -/
inductive UnresolvedPolicy where
  | fail
  /-- Nothing is written, and it counts as false. -/
  | blank
deriving DecidableEq, Repr

structure Settings where
  /-- The directory of the templates, from the base directory. -/
  directory : String := "templates"
  /-- What goes before and after the path of every template. -/
  pathBefore : String := ""
  pathAfter : String := ""
  unresolved : UnresolvedPolicy := .fail
  /-- How many sections, blocks, lambdas and inclusions may be open inside each other. -/
  maxDepth : Nat := 64
deriving DecidableEq, Repr

/-- The path of a template as it is asked for. -/
def Settings.fullPath (s : Settings) (path : String) : String := s.pathBefore ++ path ++ s.pathAfter

inductive TemplateSource where
  | inline (content : String)
  /-- The path of a file, with or without the name of a fragment. -/
  | file (path : String)
deriving DecidableEq, Repr

structure NamedTemplate where
  name : String
  source : TemplateSource
deriving Repr

/-- Only the names of registered templates are compared. -/
instance : BEq NamedTemplate := ⟨fun a b => a.name == b.name⟩

end Mustache

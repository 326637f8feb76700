import Mustache.Loader
import Mustache.Path
import Mustache.Settings

/-!
# Loading from files

The paths of templates lead from a base directory: through the directory of the templates, or, with
a slash in front, right from the base. What has been read is known from what was asked for (`reads`).
-/

namespace Mustache

/-- Where templates are read from; `read` gives the text of a file by its normalized path. -/
structure FileLoader where
  base : String
  directory : String := "templates"
  read : Path → Except SystemError String

namespace FileLoader

/-- The normalized path of the file of a template. A template has no place of its own from which a
path with a point in front could lead. -/
def resolve (l : FileLoader) (path : String) : Except SystemError Path :=
  let base := Path.ofString l.base
  match path.toList with
  | '.' :: _ => .error ⟨.invalidInput, "cannot load `" ++ path ++ "` using relative path"⟩
  | '/' :: r => .ok (base.join (Path.ofString (String.ofList (r.dropWhile (· = '/'))))).normalize
  | _ => .ok ((base.join (Path.ofString l.directory)).join (Path.ofString path)).normalize

def load (l : FileLoader) : Loader := fun path => do l.read (← l.resolve path)

/-- The file that is read for a path that is asked for, if it can be. -/
def readFor? (l : FileLoader) (path : String) : Option Path :=
  match l.resolve path, l.load path with
  | .ok file, .ok _ => some file
  | _, _ => none

/-- The files that have been read after some paths were asked for, in order. -/
def reads (l : FileLoader) (requests : List String) : List Path := requests.filterMap l.readFor?

end FileLoader
end Mustache

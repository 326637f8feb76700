import Mustache.Dictionary
import Mustache.Path
import Mustache.SystemError

/-!
# File trees

Directories and files, and the reading of a file as a text.
-/

namespace Mustache

/-- A file, or a directory with its entries. -/
inductive FileTree where
  | file (content : ByteArray)
  | directory (entries : List (String × FileTree))
deriving Inhabited

namespace FileTree

/-- The text of a file, if its content is the UTF-8 encoding of one. -/
def decode (content : ByteArray) : Except SystemError String :=
  match String.fromUTF8? content with
  | some text => .ok text
  | none => .error .notText

/-- The text of the file that names lead to. -/
def readNames : FileTree → List String → Except SystemError String
  | .file content, [] => decode content
  | .file _, _ :: _ => .error .fileEntered
  | .directory _, [] => .error .directoryRead
  | .directory entries, name :: r =>
    match Dictionary.find? name entries with
    | some entry => readNames entry r
    | none => .error .noSuchFile

/-- The text of the file at a path. Only paths that do not start at the root lead into the tree; of the
others, only the root itself is known to be there. -/
def read (t : FileTree) (p : Path) : Except SystemError String :=
  if p.names.any (·.toList.contains '\x00') then .error .nulInName
  else if p.rooted then .error (if p.names = [] then .directoryRead else .noSuchFile)
  else if p.names = [] then .error .noSuchFile
  else t.readNames p.names

/-- Puts a tree where names lead, with the directories on the way there. -/
def insert (added : FileTree) : List String → FileTree → FileTree
  | [], t =>
    match added, t with
    | .directory new, .directory old => .directory (Dictionary.insertAll new old)
    | _, _ => added
  | name :: r, t =>
    let entries := match t with
      | .directory entries => entries
      | .file _ => []
    .directory (Dictionary.insert name (insert added r ((Dictionary.find? name entries).getD (.directory []))) entries)

end FileTree
end Mustache

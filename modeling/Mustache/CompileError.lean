import Mustache.Token
import Mustache.SystemError

/-!
# Compile errors

Why a template cannot be compiled, and through which templates the faulty one was included.
-/

namespace Mustache
open Text

/-- Why a template cannot be compiled. -/
inductive Fault where
  | unreadable (cause : SyntaxError)
  /-- A template that includes itself, directly or through others. -/
  | circularTemplate (name : String)
  | fragmentNotFound (path fragment : String)
  | unresolvedReference (name : String) (position : Position)
  /-- An end tag and the innermost open tag do not belong together, or one of the two is missing. -/
  | sectionMismatch (expected found : Option String) (position : Position)
  | invalidReference (name : String) (position : Position)
  | load (path : String) (cause : SystemError)
  | tooDeep (maxDepth : Nat) (position : Position)
deriving DecidableEq, Repr

namespace Fault

/-- The position of the faulty tag, if the fault has one. -/
def position? : Fault → Option Position
  | .unreadable cause => some cause.position
  | .unresolvedReference _ p | .sectionMismatch _ _ p | .invalidReference _ p | .tooDeep _ p => some p
  | .circularTemplate _ | .fragmentNotFound .. | .load .. => none

/-- An end tag as it is written with the standard delimiters. -/
def endTag (name : String) : String := "\x7b\x7b/" ++ name ++ "\x7d\x7d"

/-- What is said of an end tag that does not belong to the innermost open tag. -/
def mismatchReason : Option String → Option String → String
  | some expected, some found => "expected `" ++ endTag expected ++ "`, found `" ++ endTag found ++ "`"
  | some expected, none => "unclosed section `" ++ expected ++ "`"
  | none, some found => "unexpected closing `" ++ found ++ "`"
  | none, none => "unbalanced section"

def message : Fault → String
  | .unreadable cause => cause.message
  | .circularTemplate name => "circular template reference `" ++ name ++ "`"
  | .fragmentNotFound path fragment => "fragment `" ++ fragment ++ "` not found in `" ++ path ++ "`"
  | .unresolvedReference name p => p.describe ++ ": cannot resolve `" ++ name ++ "`"
  | .sectionMismatch expected found p => p.describe ++ ": " ++ mismatchReason expected found
  | .invalidReference name p => p.describe ++ ": invalid reference `" ++ name ++ "`"
  | .load path cause => "failed to load `" ++ path ++ "`: " ++ cause.message
  | .tooDeep maxDepth p => p.describe ++ ": exceeding maximum depth of " ++ toString maxDepth

end Fault

/-- A fault with the names of the templates under compilation, the entry template first. -/
structure CompileError where
  fault : Fault
  chain : List String := []
deriving DecidableEq, Repr

namespace CompileError

/-- How the chain is shown after the fault. -/
def chainNote : List String → String
  | [] => ""
  | names => ", in " ++ " -> ".intercalate names

def message (e : CompileError) : String := e.fault.message ++ chainNote e.chain

/-- The chain by itself: its note without the introduction, however often that is repeated. -/
def chainText (e : CompileError) : String :=
  String.ofList (dropRepeats ", in ".toList (chainNote e.chain).toList)

end CompileError
end Mustache

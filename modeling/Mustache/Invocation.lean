import Mustache.Code
import Mustache.Compiler
import Mustache.FileLoader

/-!
# Invocations

The arguments with which a template is compiled while a program is built, and the code that this
gives. A template is given by its path, or by its source and possibly a name.
-/

namespace Mustache
open Text

inductive ArgumentValue where
  | text (content : String)
  | other
deriving DecidableEq, Repr

/-- A key, which is a path of names, and its value. -/
structure Argument where
  key : List String
  value : ArgumentValue
deriving DecidableEq, Repr

/-- The keys that an invocation takes. -/
inductive ArgumentKey where
  | path
  | source
  | name
  | lambdas
deriving DecidableEq, Repr

namespace ArgumentKey

def ofString? : String → Option ArgumentKey
  | "path" => some .path
  | "source" => some .source
  | "name" => some .name
  | "lambdas" => some .lambdas
  | _ => none

def text : ArgumentKey → String
  | .path => "path"
  | .source => "source"
  | .name => "name"
  | .lambdas => "lambdas"

end ArgumentKey

inductive InvocationError where
  | keyIsPath
  | unknownKey
  | valueIsNotText
  | duplicateKey (key : ArgumentKey)
  | nameWithoutSource
  | notOneTemplate
  | noBaseDirectory
  | compile (cause : CompileError)
deriving DecidableEq, Repr

def InvocationError.message : InvocationError → String
  | .keyIsPath => "expected this path to be an identifier"
  | .unknownKey => "no such key"
  | .valueIsNotText => "expected string"
  | .duplicateKey key => "duplicate `" ++ key.text ++ "` key"
  | .nameWithoutSource => "`name` is only allowed with `source`"
  | .notOneTemplate => "only single either of `path` or `source` is required"
  | .noBaseDirectory => "cannot get crate directory: environment variable not found"
  | .compile cause => cause.message

/-- Where the template of an invocation comes from. -/
inductive InvocationInput where
  | path (path : String)
  | source (source name : String)
deriving DecidableEq, Repr

/-- A template, and the names of the sections that call functions. -/
structure Invocation where
  input : InvocationInput
  lambdas : List String
deriving DecidableEq, Repr

namespace Invocation

/-- The values of the keys that have occurred. -/
abbrev Given := List (ArgumentKey × String)

def valueOf? (key : ArgumentKey) (given : Given) : Option String := given.lookup key

/-- Takes one more argument: its key, then its value, and then whether it is the first of its key. -/
def take (given : Given) (a : Argument) : Except InvocationError Given :=
  match a.key with
  | [name] =>
    match ArgumentKey.ofString? name, a.value with
    | none, _ => .error .unknownKey
    | some _, .other => .error .valueIsNotText
    | some key, .text content =>
      if (valueOf? key given).isSome then .error (.duplicateKey key) else .ok ((key, content) :: given)
  | _ => .error .keyIsPath

/-- The name of a source that is given without one. -/
def inlineName : String := "inline"

/-- The names between the commas of a text. -/
def lambdaNames (content : String) : List String :=
  (((split (· = ',') content.toList).map trim).filter (!·.isEmpty)).map String.ofList

/-- The template that the values of the keys stand for. -/
def inputOf (given : Given) : Except InvocationError InvocationInput :=
  match valueOf? .path given, valueOf? .source given, valueOf? .name given with
  | some path, none, none => .ok (.path path)
  | none, some source, name => .ok (.source source (name.getD inlineName))
  | some _, _, some _ => .error .nameWithoutSource
  | _, _, _ => .error .notOneTemplate

def ofArguments (arguments : List Argument) : Except InvocationError Invocation := do
  let given ← arguments.foldlM take []
  let input ← inputOf given
  return { input, lambdas := lambdaNames ((valueOf? .lambdas given).getD "") }

/-- The code of an invocation, with the templates in files under a base directory. -/
def build (base? : Option String) (read : Path → Except SystemError String) (arguments : List Argument) :
    Except InvocationError (List CodeToken) := do
  let invocation ← ofArguments arguments
  let some base := base? | .error .noBaseDirectory
  let files : FileLoader := { base, read }
  let compiler : Compiler := { loader := files.load, lambdas := invocation.lambdas }
  let result := match invocation.input with
    | .path path => compiler.compilePath path
    | .source source name => compiler.compile source name
  match result with
  | .ok program state => return Code.ofBuild ((files.reads state.requests).map Path.text) program
  | .error cause _ => .error (.compile cause)

end Invocation
end Mustache

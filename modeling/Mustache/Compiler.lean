import Mustache.Compiler.State
import Mustache.Fragment
import Mustache.Loader
import Mustache.Program
import Mustache.Settings
import Mustache.Statement.Reader

/-!
# The compiler

Statements become nodes: names are resolved in the scope of their place, templates are included in
theirs, and blocks give way to their overrides. Sections, blocks, lambdas and inclusions go one level
deeper. How many levels are left bounds the whole compilation (`emitter`), whatever the loader gives.
-/

namespace Mustache
open Text CompileM

/-- Bodies that replace the blocks of a name, as a dictionary. -/
abbrev Overrides := List (String × List Statement)

/-- What a compilation depends on beside the source. The registered templates are a dictionary. -/
structure Compiler where
  loader : Loader
  settings : Settings := {}
  partials : List (String × TemplateSource) := []
  lambdas : List String := []
  schema : Schema := .any

/-- Adds to nodes, which are listed newest first, those of a statement. -/
abbrev Emitter := Overrides → List Node → Statement → CompileM (List Node)

namespace Compiler

/-- Registers a template in place of one of the same name. -/
def register (c : Compiler) (t : NamedTemplate) : Compiler :=
  { c with partials := Dictionary.insert t.name t.source c.partials }

/-! ## Loading -/

def request (c : Compiler) (path : String) : CompileM String := fun s =>
  let s := { s with requests := s.requests ++ [path] }
  match c.loader path with
  | .ok text => .ok text s
  | .error cause => .error (s.stack.error (.load path cause)) s

/-- The file of a path, and the fragment that a number sign separates from it. -/
def splitFragment (path : String) : String × Option String :=
  match breakOn ['#'] path.toList with
  | some (file, fragment) => (String.ofList file, some (String.ofList fragment))
  | none => (path, none)

/-- The text of a path: of a file, or of a fragment of a file. -/
def loadPath (c : Compiler) (path : String) (position : Position) : CompileM String := do
  let (file, fragment?) := splitFragment path
  if file = "" ∨ fragment? = some "" then fail (.invalidReference path position)
  let text ← c.request (c.settings.fullPath file)
  match fragment? with
  | none => return text
  | some fragment =>
    match Fragment.extract text fragment with
    | .ok (some text) => return text
    | .ok none => fail (.fragmentNotFound file fragment)
    | .error cause => fail (.unreadable cause)

/-- The text of an included template: a registered one, or else that of the name as a path. -/
def loadTemplate (c : Compiler) (name : String) (position : Position) : CompileM String :=
  match Dictionary.find? name c.partials with
  | some (.inline text) => return text
  | some (.file path) => c.loadPath path position
  | none => c.loadPath name position

/-! ## Names -/

/-- What a name refers to at the current place. -/
def resolve (c : Compiler) (name : String) (position : Position) : CompileM Resolution := do
  match (← get).scope.resolve name with
  | some r =>
    report (.resolved name r.lookup)
    return r
  | none =>
    match c.settings.unresolved with
    | .blank => return ⟨.missing, .any⟩
    | .fail => fail (.unresolvedReference name position)

/-- How a section treats what its name refers to, and the frame of its body. -/
def sectionKind (inverted : Bool) (r : Resolution) : SectionKind × Frame :=
  if inverted then (.inverted, .test)
  else if r.lookup = .missing then (.condition, .test)
  else
    match r.schema with
    | .list element => (.iterate, .value element)
    | .bool => (.condition, .test)
    | .any => (.dynamic, .value .any)
    | schema => (.within, .value schema)

/-! ## Statements

What goes one level deeper is left to an emitter for that level, which is missing where no level is
left. -/

def enter (c : Compiler) (deeper : Option Emitter) (position : Position) : CompileM Emitter :=
  match deeper with
  | some emit => return emit
  | none => fail (.tooDeep c.settings.maxDepth position)

def emitAll (emit : Emitter) (overrides : Overrides) (nodes : List Node) (stmts : List Statement) :
    CompileM (List Node) :=
  stmts.foldlM (emit overrides) nodes

/-- The nodes of a body behind a border that adds no value. -/
def emitEnclosed (c : Compiler) (deeper : Option Emitter) (overrides : Overrides) (nodes : List Node)
    (body : List Statement) (position : Position) : CompileM (List Node) := do
  let emit ← c.enter deeper position
  inFrame .boundary (emitAll emit overrides nodes body)

def emitSection (c : Compiler) (deeper : Option Emitter) (overrides : Overrides) (name : String)
    (inverted : Bool) (body : List Statement) (position : Position) : CompileM Node := do
  let r ← c.resolve name position
  let (kind, frame) := sectionKind inverted r
  let emit ← c.enter deeper position
  let nodes ← inFrame frame (emitAll emit overrides [] body)
  return .sect r.lookup kind nodes.reverse

/-- The nodes of a source, newest first. -/
def emitSource (emit : Emitter) (overrides : Overrides) (source indent : String) : CompileM (List Node) :=
  match Statement.ofSource source indent with
  | .ok stmts => emitAll emit overrides [] stmts
  | .error fault => fail fault

/-- The nodes of an included template, newest first. -/
def emitInclusion (c : Compiler) (deeper : Option Emitter) (overrides : Overrides) (name indent : String)
    (position : Position) : CompileM (List Node) :=
  inTemplate name (some position) do
    let emit ← c.enter deeper position
    let source ← c.loadTemplate name position
    report (.including name (← get).stack.size)
    inFrame .boundary (emitSource emit overrides source indent)

/-- The blocks that stand directly in a body; of two with one name the later counts. -/
def directBlocks (body : List Statement) : Overrides :=
  Dictionary.ofList <| body.filterMap fun
    | .block name body _ => some (name, body)
    | _ => none

theorem mem_directBlocks {body : List Statement} {override : String × List Statement}
    (member : override ∈ directBlocks body) : ∃ position, .block override.1 override.2 position ∈ body := by
  rcases Dictionary.mem_of_mem_insertAll member with direct | none
  · obtain ⟨stmt, inside, block⟩ := List.mem_filterMap.mp direct
    cases stmt with
    | block name content position =>
      obtain rfl : (name, content) = override := Option.some.inj block
      exact ⟨position, inside⟩
    | _ => cases block
  · cases none

/-- The nodes of a statement. The blocks of a parent give way to the overrides from further out, and
an override is out of force inside itself. -/
def emitStatement (c : Compiler) (deeper : Option Emitter) : Emitter := fun overrides nodes stmt => do
  match stmt with
  | .text content => return Node.push nodes (.text content)
  | .interpolation name escape position =>
    let r ← c.resolve name position
    return Node.push nodes (.interpolation r.lookup escape)
  | .sect name inverted body position =>
    if !inverted && c.lambdas.contains name then
      let inner ← c.emitEnclosed deeper overrides [] body position
      return Node.push nodes (.lambda name inner.reverse)
    else
      return Node.push nodes (← c.emitSection deeper overrides name inverted body position)
  | .inclusion name indent position =>
    let inner ← c.emitInclusion deeper [] name indent position
    return inner.reverse.foldl Node.push nodes
  | .parent name body position =>
    let inner ← c.emitInclusion deeper (Dictionary.insertAll overrides (directBlocks body)) name "" position
    return inner.reverse.foldl Node.push nodes
  | .block name body position =>
    match Dictionary.find? name overrides with
    | some replacement => c.emitEnclosed deeper (Dictionary.erase name overrides) nodes replacement position
    | none => c.emitEnclosed deeper overrides nodes body position

def emitter (c : Compiler) : Nat → Emitter
  | 0 => fun overrides nodes stmt => c.emitStatement none overrides nodes stmt
  | levels + 1 => fun overrides nodes stmt => c.emitStatement (some (c.emitter levels)) overrides nodes stmt

/-! ## Programs -/

/-- Compiles a source under a name. -/
def compileSource (c : Compiler) (source name : String) : CompileM Program := do
  let nodes ← inTemplate name none (emitSource (c.emitter c.settings.maxDepth) [] source "")
  let program := { name, nodes := nodes.reverse }
  report (.compiled name program.size)
  return program

def start (c : Compiler) : CompileState := { scope := { model := c.schema } }

/-- Compiles a source under a name: the program or the error, and the state at the end. -/
def compile (c : Compiler) (source name : String) : EStateM.Result CompileError CompileState Program :=
  c.compileSource source name c.start

/-- Compiles the template at a path, which is also its name. -/
def compilePath (c : Compiler) (path : String) : EStateM.Result CompileError CompileState Program :=
  (do c.compileSource (← c.loadPath path {}) path : CompileM Program) c.start

end Compiler
end Mustache

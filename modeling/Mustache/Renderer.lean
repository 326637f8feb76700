import Mustache.Escaper
import Mustache.Program
import Mustache.Value.Printer

/-!
# Rendering

A program is carried out on a stack of values, innermost first, at whose bottom is the model. The
body of a section is rendered on the stacks that its value makes of the current one
(`sectionStacks`): none, the same, or the same with one more value.
-/

namespace Mustache

/-- The text of a value before it is escaped. -/
abbrev Formatter := Value → String

/-- Texts as they are, numbers in plain decimal, nothing for null, and JSON for arrays and objects. -/
def Formatter.standard : Formatter
  | .null => ""
  | .text content => content
  | .number n => n.text .plain
  | value => value.toJson

/-- A function that a section may call. -/
inductive Lambda where
  /-- Of the current value; what it gives is escaped. -/
  | value (call : Value → String)
  /-- Of the current value and the rendered body; what it gives is written as it is. -/
  | wrap (call : Value → String → String)

/-- The text of a lambda, which tells its kind only. -/
def Lambda.describe : Lambda → String
  | .value _ => "Lambda::Value"
  | .wrap _ => "Lambda::Wrap"

/-- What rendering depends on beside the program and the model. The functions are a dictionary. -/
structure Renderer where
  escaper : Escaper := .html
  formatter : Formatter := .standard
  lambdas : List (String × Lambda) := []

namespace Renderer

/-- The stacks on which the body of a section is rendered, one after another. -/
def sectionStacks (kind : SectionKind) (value : Option Value) (stack : List Value) : List (List Value) :=
  match kind with
  | .condition => if Value.truthy value then [stack] else []
  | .inverted => if Value.truthy value then [] else [stack]
  | .iterate | .within | .dynamic =>
    match value with
    | some (.array items) => items.map (· :: stack)
    | some (.boolean true) => (stack.head?.map (· :: stack)).toList
    | some v => if Value.truthy (some v) then [v :: stack] else []
    | none => []

/-- The output for a value that a lookup finds; nothing is written for a missing one. -/
def interpolate (r : Renderer) (escape : Bool) : Option Value → Output
  | none => {}
  | some v => if escape then r.escaper.output (r.formatter v) else { pieces := [r.formatter v] }

/-- The output of a call with the output of the body. A body that fails is not written at all. -/
def callLambda (r : Renderer) (name : String) (stack : List Value) (body : Output) : Output :=
  match Dictionary.find? name r.lambdas, stack.head? with
  | none, _ => { failure := some (.noLambda name) }
  | some _, none => {}
  | some (.value call), some current => r.escaper.output (call current)
  | some (.wrap call), some current =>
    match body.failure with
    | some e => { failure := some e }
    | none => { pieces := [call current body.text] }

mutual
def renderNode (r : Renderer) (stack : List Value) : Node → Output
  | .text content => { pieces := [content] }
  | .interpolation lookup escape => r.interpolate escape (lookup.eval? stack)
  | .sect lookup kind body =>
    .concat ((sectionStacks kind (lookup.eval? stack) stack).map fun inner => renderNodes r inner body)
  | .lambda name body => r.callLambda name stack (renderNodes r stack body)

def renderNodes (r : Renderer) (stack : List Value) : List Node → Output
  | [] => {}
  | n :: rest => (renderNode r stack n).andThen (renderNodes r stack rest)
end

def output (r : Renderer) (p : Program) (model : Value) : Output := r.renderNodes [model] p.nodes

def renderInto {σ : Type} (r : Renderer) (p : Program) (model : Value) (sink : Sink σ) (taken : σ) :
    σ × Option RenderError :=
  sink.writeOutput taken (r.output p model)

def render (r : Renderer) (p : Program) (model : Value) : Except RenderError String :=
  match r.renderInto p model .text "" with
  | (text, none) => .ok text
  | (_, some e) => .error e

end Renderer

/-! ## Templates -/

/-- A program together with a model, or with the reason why the model is not a value. -/
structure Template where
  program : Program
  model : Except ModelError Value

namespace Template

def renderInto {σ : Type} (t : Template) (sink : Sink σ) (taken : σ) : σ × Option RenderError :=
  match t.model with
  | .error cause => (taken, some (.model cause))
  | .ok model => ({} : Renderer).renderInto t.program model sink taken

def render (t : Template) : Except RenderError String :=
  match t.renderInto .text "" with
  | (text, none) => .ok text
  | (_, some e) => .error e

end Template
end Mustache

import Mustache.CompileError
import Mustache.ModelError

/-!
# Errors of rendering

What can go wrong between a template and its output.
-/

namespace Mustache

/-- Why there is no output, or why it is not complete. -/
inductive RenderError where
  | compile (cause : CompileError)
  /-- The model cannot be turned into a value. -/
  | model (cause : ModelError)
  | system (cause : SystemError)
  /-- An output that takes no more, and does not tell why. -/
  | refused
  /-- A section calls for a function that the renderer does not have. -/
  | noLambda (name : String)
deriving DecidableEq, Repr

namespace RenderError

def message : RenderError → String
  | .compile cause => cause.message
  | .model cause => "failed to serialize model: " ++ cause.message
  | .system cause => cause.message
  | .refused => "an error occurred when formatting an argument"
  | .noLambda name => "no lambda named `" ++ name ++ "`"

/-- An error as a system error: what is wrong with the template, its model or its functions is wrong
data. -/
def toSystemError : RenderError → SystemError
  | .compile cause => ⟨.invalidData, cause.message⟩
  | .model cause => ⟨.invalidData, cause.message⟩
  | .system cause => cause
  | .refused => ⟨.other, RenderError.refused.message⟩
  | .noLambda name => ⟨.invalidData, (RenderError.noLambda name).message⟩

end RenderError
end Mustache

import Mustache.CompileError

/-!
# The stack of templates under compilation

The entry template and the templates through which the current one was reached. A name is at most
once on it, so that no template includes itself.
-/

namespace Mustache

/-- A template under compilation, and where it is referenced; the entry template is not. -/
structure OpenTemplate where
  name : String
  site : Option Position := none
deriving DecidableEq, Repr

/-- The templates under compilation, innermost first. -/
structure TemplateStack where
  frames : List OpenTemplate := []
deriving DecidableEq, Repr

namespace TemplateStack

/-- The names on the stack, the entry template first. -/
def chain (s : TemplateStack) : List String := (s.frames.map (·.name)).reverse

def contains (s : TemplateStack) (name : String) : Bool := s.frames.any (·.name == name)

def size (s : TemplateStack) : Nat := s.frames.length

def current? (s : TemplateStack) : Option OpenTemplate := s.frames.head?

/-- Puts a template on the stack, unless it is on it; the chain of that error ends with the name. -/
def push? (s : TemplateStack) (name : String) (site : Option Position) : Except CompileError TemplateStack :=
  if s.contains name then .error { fault := .circularTemplate name, chain := s.chain ++ [name] }
  else .ok { frames := ⟨name, site⟩ :: s.frames }

def pop (s : TemplateStack) : TemplateStack := { frames := s.frames.tail }

/-- A fault in the template that is compiled now. -/
def error (s : TemplateStack) (fault : Fault) : CompileError := { fault, chain := s.chain }

end TemplateStack
end Mustache

import Mustache.Scope
import Mustache.TemplateStack

/-!
# The state of a compilation

The scope and the stack of templates at the current place, what has happened so far, and the paths
that the loader was asked for. The state is there also after a fault. A frame and a template are
taken back wherever what was done under them ends, with or without a fault.
-/

namespace Mustache

/-- What a compilation reports. -/
inductive Event where
  | resolved (name : String) (lookup : Lookup)
  /-- A template was loaded; the number of templates under compilation includes it. -/
  | including (name : String) (depth : Nat)
  /-- A program of so many nodes is complete. -/
  | compiled (name : String) (nodes : Nat)
deriving DecidableEq, Repr

/-- The state of a compilation; events and requests are in the order in which they occurred. -/
structure CompileState where
  scope : Scope
  stack : TemplateStack := {}
  events : List Event := []
  requests : List String := []

abbrev CompileM := EStateM CompileError CompileState

namespace CompileM

variable {α : Type}

/-- Ends with a fault in the template that is compiled now. -/
def fail (fault : Fault) : CompileM α := fun s => .error (s.stack.error fault) s

def report (event : Event) : CompileM Unit := modify fun s => { s with events := s.events ++ [event] }

def dropFrame (s : CompileState) : CompileState := { s with scope := s.scope.pop }

def dropTemplate (s : CompileState) : CompileState := { s with stack := s.stack.pop }

def inFrame (frame : Frame) (inner : CompileM α) : CompileM α := fun s =>
  match inner { s with scope := s.scope.push frame } with
  | .ok a t => .ok a (dropFrame t)
  | .error e t => .error e (dropFrame t)

/-- Does something inside a template, unless that is under compilation already. -/
def inTemplate (name : String) (site : Option Position) (inner : CompileM α) : CompileM α := fun s =>
  match s.stack.push? name site with
  | .error e => .error e s
  | .ok stack =>
    match inner { s with stack } with
    | .ok a t => .ok a (dropTemplate t)
    | .error e t => .error e (dropTemplate t)

end CompileM
end Mustache

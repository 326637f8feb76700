import Mustache.Schema
import Mustache.Lookup

/-!
# Scopes

What a name can refer to at a place of a template: the model, and the frames that sections and
boundaries have put before it. Names are resolved outward through the frames that carry a value.
-/

namespace Mustache
open Text

inductive Frame where
  /-- Carries a value: the model, the value of a section, or the item of a list. -/
  | value (schema : Schema)
  | test
  /-- The border of an inclusion, a block or a lambda. -/
  | boundary
deriving Repr

def Frame.schema? : Frame → Option Schema
  | .value schema => some schema
  | .test | .boundary => none

/-- The frames before the model, innermost first, and the schema of the model. -/
structure Scope where
  model : Schema
  frames : List Frame := []
deriving Repr

/-- What a name refers to, and what is known of it. -/
structure Resolution where
  lookup : Lookup
  schema : Schema
deriving Repr

namespace Scope

def push (s : Scope) (f : Frame) : Scope := { s with frames := f :: s.frames }

/-- Takes the innermost frame away; the model stays. -/
def pop (s : Scope) : Scope := { s with frames := s.frames.tail }

def depth (s : Scope) : Nat := s.frames.length

/-- The schemas of the values in the scope, innermost first. -/
def values (s : Scope) : List Schema := s.frames.filterMap Frame.schema? ++ [s.model]

def innermost (s : Scope) : Schema := (s.frames.findSome? Frame.schema?).getD s.model

@[simp] theorem pop_push (s : Scope) (f : Frame) : (s.push f).pop = s := rfl

/-- The first of some values that has a part of a name or of which only the value can tell, counted
from a number on, and what is known of that part. A search stops at what is unknown. -/
def walk (name : String) : Nat → List Schema → Option (Nat × Schema × Bool)
  | _, [] => none
  | up, s :: r =>
    match s.field name with
    | .found schema => some (up, schema, false)
    | .unknown => some (up, .any, true)
    | .absent => walk name (up + 1) r

/-- What is known of the part that a path leads to; nothing if there is no such part. -/
def descend? (path : List String) (schema : Schema) : Option Schema :=
  path.foldlM (fun s name =>
    match s.field name with
    | .found schema => some schema
    | .unknown => some .any
    | .absent => none) schema

def segments (name : String) : List String := (split (· = '.') name.toList).map String.ofList

/-- What a name refers to; nothing if it is known that there is no such value. A point and `this` are
the innermost value. The first segment is looked for outward through the values, the others lead
into what is found. -/
def resolve (s : Scope) (name : String) : Option Resolution :=
  if name = "." ∨ name = "this" then some ⟨.current 0, s.innermost⟩
  else
    match segments name with
    | [] => none
    | first :: rest =>
      if first = "this" then do
        some ⟨.frame 0 rest, ← descend? rest s.innermost⟩
      else do
        let (up, schema, searched) ← walk first 0 s.values
        let schema ← descend? rest schema
        some ⟨if searched then .search up (first :: rest) else .frame up (first :: rest), schema⟩

end Scope
end Mustache

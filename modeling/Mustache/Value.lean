import Mustache.Number
import Mustache.Dictionary

/-!
# Values

The models that templates are rendered with, and what a section and a name make of them.
-/

namespace Mustache
open Text

/-- A value of a model. The fields of an object are a dictionary. -/
inductive Value where
  | null
  | boolean (value : Bool)
  | number (value : Number)
  | text (content : String)
  | array (items : List Value)
  | object (fields : List (String × Value))
deriving Repr, Inhabited

namespace Value

/-- Null, false and the empty array count as false, as does a value that is missing. -/
def truthy : Option Value → Bool
  | none | some .null | some (.boolean false) | some (.array []) => false
  | some _ => true

/-- The part of a value that a name stands for: the field of an object, or the item of an array. -/
def child? (name : String) : Value → Option Value
  | .object fields => Dictionary.find? name fields
  | .array items => do items[← index? name.toList]?
  | _ => none

/-- The part of a value that a path leads to. -/
def descend? (path : List String) (value : Value) : Option Value := path.foldlM (fun v name => v.child? name) value

end Value
end Mustache

import Mustache.Value

/-!
# Schemas

What is known of the shape of a model before it is there. A schema can be inferred from a sample;
merging forgets all in which two schemas differ.
-/

namespace Mustache
open Text

/-- The shape of a value. The fields of an object are a dictionary. -/
inductive Schema where
  | any
  | bool
  | scalar
  | list (element : Schema)
  | object (fields : List (String × Schema))
deriving Repr, Inhabited

namespace Schema

/-- What a schema knows of the part that a name stands for. -/
inductive Field where
  | found (schema : Schema)
  | unknown
  | absent
deriving Repr

/-- The part that a name stands for. An index stands for every item of a list. -/
def field (name : String) : Schema → Field
  | .any => .unknown
  | .object fields =>
    match Dictionary.find? name fields with
    | some schema => .found schema
    | none => .absent
  | .list element => if (index? name.toList).isSome then .found element else .absent
  | .bool | .scalar => .absent

mutual
/-- What two schemas have in common. Objects are merged field by field, and only if they have the
same fields. -/
def merge : Schema → Schema → Schema
  | .bool, .bool => .bool
  | .scalar, .scalar => .scalar
  | .list a, .list b => .list (merge a b)
  | .object a, .object b =>
    if Dictionary.keys a = Dictionary.keys b then .object (mergeFields a b) else .any
  | _, _ => .any

/-- Merges fields that have the same names in the same order. -/
def mergeFields : List (String × Schema) → List (String × Schema) → List (String × Schema)
  | (name, a) :: r, (_, b) :: s => (name, merge a b) :: mergeFields r s
  | _, _ => []
end

/-- The schema of the items of a list with given schemas; nothing is known of no items. -/
def mergeAll : List Schema → Schema
  | [] => .any
  | s :: r => r.foldl merge s

mutual
def infer : Value → Schema
  | .null => .any
  | .boolean _ => .bool
  | .number _ | .text _ => .scalar
  | .array items => .list (mergeAll (inferItems items))
  | .object fields => .object (inferFields fields)

def inferItems : List Value → List Schema
  | [] => []
  | item :: r => infer item :: inferItems r

def inferFields : List (String × Value) → List (String × Schema)
  | [] => []
  | (name, value) :: r => (name, infer value) :: inferFields r
end

end Schema
end Mustache

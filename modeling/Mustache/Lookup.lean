import Mustache.Value

/-!
# Lookups

Where a program finds a value: a number of value frames outward from the innermost one, and then
along a path. A lookup is evaluated on a stack of values, innermost first.
-/

namespace Mustache

inductive Lookup where
  | current (up : Nat)
  | frame (up : Nat) (path : List String)
  /-- The first segment is searched from a frame outward; the others lead into what is found. -/
  | search (up : Nat) (path : List String)
  | missing
deriving DecidableEq, Repr, Inhabited

namespace Lookup

def describe : Lookup → String
  | .current up => "frame(" ++ toString up ++ ").this"
  | .frame up path => "frame(" ++ toString up ++ ")." ++ ".".intercalate path
  | .search up path => "search(" ++ toString up ++ ")." ++ ".".intercalate path
  | .missing => "missing"

/-- The innermost value with a part of a name, and that part. -/
def searchFor (name : String) (stack : List Value) : Option Value := stack.findSome? (·.child? name)

/-- The value that a lookup finds on a stack. -/
def eval? (stack : List Value) : Lookup → Option Value
  | .current up => stack[up]?
  | .frame up path => do (← stack[up]?).descend? path
  | .search up (first :: rest) => do (← searchFor first (stack.drop up)).descend? rest
  | .search _ [] => none
  | .missing => none

end Lookup
end Mustache

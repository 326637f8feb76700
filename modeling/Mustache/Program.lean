import Mustache.Lookup

/-!
# Programs

A compiled template: a tree of nodes in which every included template stands in its place and every
name is a lookup. Adjacent texts are one.
-/

namespace Mustache

/-- What a section makes of its value. -/
inductive SectionKind where
  /-- A list: the body is repeated, each time with an item as a value frame. -/
  | iterate
  /-- An object, a text or a number: the body has it as a value frame. -/
  | within
  | condition
  | inverted
  /-- The value decides; a value frame is always added, and for `true` it holds the current value. -/
  | dynamic
deriving DecidableEq, Repr, Inhabited

inductive Node where
  | text (content : String)
  | interpolation (lookup : Lookup) (escape : Bool)
  | sect (lookup : Lookup) (kind : SectionKind) (body : List Node)
  /-- Hands the current value and the rendered body to a function. -/
  | lambda (name : String) (body : List Node)
deriving Repr, Inhabited

namespace Node

/-- Adds a node to nodes that are listed newest first; a text joins the text before it. -/
def push : List Node → Node → List Node
  | .text before :: r, .text content => .text (before ++ content) :: r
  | nodes, n => n :: nodes

mutual
def size : Node → Nat
  | .text _ | .interpolation .. => 1
  | .sect _ _ body | .lambda _ body => 1 + totalSize body

def totalSize : List Node → Nat
  | [] => 0
  | n :: r => size n + totalSize r
end

end Node

structure Program where
  name : String
  nodes : List Node
deriving Repr

def Program.size (p : Program) : Nat := Node.totalSize p.nodes

end Mustache

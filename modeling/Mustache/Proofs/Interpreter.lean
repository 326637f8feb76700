import Mustache.Proofs.Results

/-!
# Interpreting templates

What a template means without any program: an interpreter walks its statements with a stack of values,
loads what they include when it comes to it, and looks for names on the stack (`Compiler.interpret`). How
many levels it may go deep bounds it, but does not change what it gives (`interpret_mono`).
-/

namespace Mustache
open Text

/-! ## The interpreter -/

/-- What stands in place of the blocks of some names. -/
abbrev Blocks := String → Option (List Statement)

namespace Blocks

/-- Every block stands as it is. -/
def own : Blocks := fun _ => none

/-- The body of the last block of a name that stands directly among some statements. -/
def ofBody : List Statement → Blocks
  | [], _ => none
  | .block other body _ :: rest, name => (ofBody rest name).or (if name = other then some body else none)
  | _ :: rest, name => ofBody rest name

/-- What stands in place of a block comes from further out, if there is anything. -/
def within (outer inner : Blocks) : Blocks := fun name => (outer name).or (inner name)

def without (blocks : Blocks) (name : String) : Blocks := fun other => if other = name then none else blocks other

end Blocks

/-- The stacks on which the body of a section is interpreted. -/
def bodyStacks (inverted : Bool) (value : Option Value) (stack : List Value) : List (List Value) :=
  if inverted then
    if Value.truthy value then [] else [stack]
  else
    match value with
    | none => []
    | some (.array items) => items.map fun item => item :: stack
    | some (.boolean true) => stack.head?.toList.map fun current => current :: stack
    | some v => if Value.truthy (some v) then [v :: stack] else []

theorem mapM_mono {α β : Type} {f g : α → Option β} (more : ∀ a b, f a = some b → g a = some b) {as : List α}
    {bs : List β} (all : as.mapM f = some bs) : as.mapM g = some bs := by
  induction as generalizing bs with
  | nil => exact all
  | cons a rest ih =>
    rw [List.mapM_cons] at all ⊢
    obtain ⟨b, here, others⟩ := Option.bind_eq_some_iff.mp all
    obtain ⟨later, each, same⟩ := Option.bind_eq_some_iff.mp others
    exact Option.bind_eq_some_iff.mpr ⟨b, more a b here, Option.bind_eq_some_iff.mpr ⟨later, ih each, same⟩⟩

namespace Compiler

def statements? (c : Compiler) (name indent : String) : Option (List Statement) := do
  (Statement.ofSource (← c.source? name) indent).toOption

/-- What a statement gives on a stack, when it is known what bodies give; nothing if a body gives nothing or
a template cannot be had. -/
def interpretOne (c : Compiler) (r : Renderer) (inner : Blocks → List Value → List Statement → Option Result)
    (blocks : Blocks) (stack : List Value) : Statement → Option Result
  | .text content => some (.ok content)
  | .interpolation name escape _ => some (r.interpolate escape (plainSearch stack name)).result
  | .sect name inverted body _ =>
    if !inverted && c.lambdas.contains name then
      (inner blocks stack body).map (r.called name stack.head?)
    else
      ((bodyStacks inverted (plainSearch stack name) stack).mapM fun s => inner blocks s body).map Result.concat
  | .inclusion name indent _ => do inner .own stack (← c.statements? name indent)
  | .parent name body _ => do inner (blocks.within (.ofBody body)) stack (← c.statements? name "")
  | .block name body _ =>
    match blocks name with
    | some replacement => inner (blocks.without name) stack replacement
    | none => inner blocks stack body

/-- What statements give on a stack, one after another. Bodies may go so many levels deep; nothing if they go
deeper. -/
def interpret (c : Compiler) (r : Renderer) : Nat → Blocks → List Value → List Statement → Option Result
  | 0, _, _, _ => none
  | fuel + 1, blocks, stack, stmts =>
    (stmts.mapM (c.interpretOne r (c.interpret r fuel) blocks stack)).map Result.concat

def interpretSource (c : Compiler) (r : Renderer) (fuel : Nat) (source : String) (model : Value) : Option Result := do
  c.interpret r fuel .own [model] (← (Statement.ofSource source "").toOption)

section

variable {c : Compiler} {r : Renderer} {fuel : Nat} {inner : Blocks → List Value → List Statement → Option Result}
  {blocks : Blocks} {stack : List Value} {name indent source : String} {position : Position} {inverted : Bool}
  {stmt : Statement} {body rest stmts : List Statement}

theorem statements?_eq (loaded : c.source? name = some source) (parsed : Statement.ofSource source indent = .ok stmts) :
    c.statements? name indent = some stmts := by
  simp [statements?, loaded, parsed, Except.toOption]

theorem interpretOne_lambda (calls : c.lambdas.contains name = true) :
    c.interpretOne r inner blocks stack (.sect name false body position) =
      (inner blocks stack body).map (r.called name stack.head?) := by
  rw [interpretOne, calls]
  rfl

theorem interpretOne_sect (plain : (!inverted && c.lambdas.contains name) = false) :
    c.interpretOne r inner blocks stack (.sect name inverted body position) =
      ((bodyStacks inverted (plainSearch stack name) stack).mapM fun s => inner blocks s body).map Result.concat := by
  rw [interpretOne, plain]
  rfl

theorem interpretOne_inclusion (loaded : c.statements? name indent = some stmts) :
    c.interpretOne r inner blocks stack (.inclusion name indent position) = inner .own stack stmts := by
  rw [interpretOne, loaded]
  rfl

theorem interpretOne_parent (loaded : c.statements? name "" = some stmts) :
    c.interpretOne r inner blocks stack (.parent name body position) =
      inner (blocks.within (.ofBody body)) stack stmts := by
  rw [interpretOne, loaded]
  rfl

theorem interpretOne_replaced {replacement : List Statement} (found : blocks name = some replacement) :
    c.interpretOne r inner blocks stack (.block name body position) =
      inner (blocks.without name) stack replacement := by
  rw [interpretOne, found]

theorem interpretOne_block (own : blocks name = none) :
    c.interpretOne r inner blocks stack (.block name body position) = inner blocks stack body := by
  rw [interpretOne, own]

theorem interpret_cons {one others : Result} (here : c.interpretOne r (c.interpret r fuel) blocks stack stmt = some one)
    (after : c.interpret r (fuel + 1) blocks stack rest = some others) :
    c.interpret r (fuel + 1) blocks stack (stmt :: rest) = some (one.andThen others) := by
  obtain ⟨results, each, rfl⟩ := Option.map_eq_some_iff.mp after
  simp only [interpret, List.mapM_cons, here, each, Option.bind_eq_bind, Option.bind_some]
  rfl

end

/-! ## More levels -/

theorem interpretOne_mono {c : Compiler} {r : Renderer}
    {inner further : Blocks → List Value → List Statement → Option Result}
    (more : ∀ blocks stack body result, inner blocks stack body = some result → further blocks stack body = some result)
    {blocks : Blocks} {stack : List Value} {stmt : Statement} {result : Result}
    (gives : c.interpretOne r inner blocks stack stmt = some result) :
    c.interpretOne r further blocks stack stmt = some result := by
  cases stmt with
  | text content => exact gives
  | interpolation name escape position => exact gives
  | sect name inverted body position =>
    by_cases calls : (!inverted && c.lambdas.contains name) = true
    · obtain ⟨rfl, listed⟩ : inverted = false ∧ c.lambdas.contains name = true := by simpa using calls
      rw [interpretOne_lambda listed] at gives ⊢
      obtain ⟨within, inside, rfl⟩ := Option.map_eq_some_iff.mp gives
      exact Option.map_eq_some_iff.mpr ⟨within, more _ _ _ _ inside, rfl⟩
    · have plain : (!inverted && c.lambdas.contains name) = false := by simpa using calls
      rw [interpretOne_sect plain] at gives ⊢
      obtain ⟨results, each, rfl⟩ := Option.map_eq_some_iff.mp gives
      exact Option.map_eq_some_iff.mpr ⟨results, mapM_mono (fun s => more _ s _) each, rfl⟩
  | inclusion name indent position =>
    obtain ⟨stmts, loaded, inside⟩ := Option.bind_eq_some_iff.mp gives
    exact Option.bind_eq_some_iff.mpr ⟨stmts, loaded, more _ _ _ _ inside⟩
  | parent name body position =>
    obtain ⟨stmts, loaded, inside⟩ := Option.bind_eq_some_iff.mp gives
    exact Option.bind_eq_some_iff.mpr ⟨stmts, loaded, more _ _ _ _ inside⟩
  | block name body position =>
    cases found : blocks name with
    | some replacement =>
      rw [interpretOne_replaced found] at gives ⊢
      exact more _ _ _ _ gives
    | none =>
      rw [interpretOne_block found] at gives ⊢
      exact more _ _ _ _ gives

/-- What is given does not depend on how many levels bodies may go deep. -/
theorem interpret_mono {c : Compiler} {r : Renderer} {fuel more : Nat} (le : fuel ≤ more) {blocks : Blocks}
    {stack : List Value} {stmts : List Statement} {result : Result}
    (gives : c.interpret r fuel blocks stack stmts = some result) : c.interpret r more blocks stack stmts = some result := by
  induction fuel generalizing more blocks stack stmts result with
  | zero => cases gives
  | succ fuel ih =>
    obtain ⟨more, rfl⟩ : ∃ n, more = n + 1 := Nat.exists_eq_add_one_of_ne_zero (by omega)
    obtain ⟨results, each, rfl⟩ := Option.map_eq_some_iff.mp gives
    have inner : ∀ blocks stack body result, c.interpret r fuel blocks stack body = some result →
        c.interpret r more blocks stack body = some result := fun _ _ _ _ => ih (Nat.le_of_succ_le_succ le)
    exact Option.map_eq_some_iff.mpr ⟨results, mapM_mono (fun _ _ => interpretOne_mono inner) each, rfl⟩

/-! ## Blocks -/

def blocksOf (overrides : Overrides) : Blocks := fun name => Dictionary.find? name overrides

theorem blocksOf_nil : blocksOf [] = .own := rfl

theorem blocksOf_erase (name : String) (overrides : Overrides) :
    blocksOf (Dictionary.erase name overrides) = (blocksOf overrides).without name := by
  funext other
  by_cases same : other = name
  · simp [blocksOf, Blocks.without, same, Dictionary.find?_erase_self]
  · simp [blocksOf, Blocks.without, same, Dictionary.find?_erase_of_ne]

theorem blocksOf_directBlocks (body : List Statement) : blocksOf (directBlocks body) = .ofBody body := by
  funext name
  simp only [blocksOf, directBlocks, Dictionary.ofList, Dictionary.find?_insertAll]
  rw [show Dictionary.find? name ([] : Overrides) = none from rfl, Option.or_none]
  induction body with
  | nil => rfl
  | cons stmt rest ih =>
    cases stmt with
    | block other body position =>
      simp only [List.filterMap_cons, List.reverse_cons, Dictionary.find?_append, ih]
      rfl
    | _ => exact ih

/-- Inside a parent the blocks that stand in its body come after those that are in force. -/
theorem blocksOf_insertAll {overrides : Overrides} (ordered : Dictionary.Ordered overrides) (body : List Statement) :
    blocksOf (Dictionary.insertAll overrides (directBlocks body)) = (blocksOf overrides).within (.ofBody body) := by
  rw [← blocksOf_directBlocks]
  funext name
  simp only [blocksOf, Blocks.within, Dictionary.find?_insertAll, ordered.find?_reverse]

end Compiler
end Mustache

import Mustache.Proofs.Interpretation

/-!
# Schemas do not change what is rendered

A schema fixes at which value a name is found, and tells what a section does; a program that is compiled
without one finds both out while rendering. With a model of the shape that was known both render the same
text, or end with the same error (`render_eq_render_untyped`), as both render what the interpreter gives.
-/

namespace Mustache
open Text

namespace Compiler

variable {c : Compiler} {r : Renderer}

/-- The interpreter takes no notice of a schema. -/
theorem interpret_untyped (fuel : Nat) : c.untyped.interpret r fuel = c.interpret r fuel := by
  induction fuel with
  | zero => rfl
  | succ fuel ih =>
    funext blocks stack stmts
    have step : c.untyped.interpretOne r (c.interpret r fuel) = c.interpretOne r (c.interpret r fuel) := rfl
    rw [interpret, interpret, ih, step]

theorem interpretSource_untyped (fuel : Nat) (source : String) (model : Value) :
    c.untyped.interpretSource r fuel source model = c.interpretSource r fuel source model := by
  rw [interpretSource, interpretSource, interpret_untyped]

/-- What compiles with a schema compiles without one, and for every model of the known shape both programs
render the same, if no name that is met begins with an index. -/
theorem render_eq_render_untyped (c : Compiler) (entry : Entry) (p : Program) (s : CompileState)
    (run : c.compileEntry entry = .ok p s)
    (names : ∀ name ∈ c.namesMet entry, index? (firstSegment name).toList = none) :
    ∃ q t, c.untyped.compileEntry entry = .ok q t ∧
      ∀ (r : Renderer) (model : Value), Conforms c.schema model → r.render p model = r.render q model := by
  obtain ⟨source, met, found, compiles, _⟩ := compiles_of_entry run
  obtain ⟨met', q, free, _⟩ := untyped_of_compiles compiles
  have found' : c.untyped.entrySource? entry = some source := found
  obtain ⟨t, run', _⟩ := entry_of_compiles found' free
  refine ⟨q, t, run', fun r model conforms => ?_⟩
  have named : ∀ m ∈ met, index? (firstSegment m.1).toList = none := by
    intro m member
    apply names
    rw [namesMet_of_compiles found compiles]
    exact List.mem_map_of_mem member
  have unknown : Scope.Untyped { model := c.untyped.schema } := fun t member => List.mem_singleton.mp member
  have typed := interpretSource_of_compiles compiles (.inr named) r (Nat.lt_succ_self _) conforms
  have anything : Conforms c.untyped.schema model := .any
  have untyped := interpretSource_of_compiles free (.inl unknown) r (Nat.lt_succ_self _) anything
  rw [interpretSource_untyped] at untyped
  exact Option.some.inj (typed.symm.trans untyped)

/-! ## A flag -/

def flagCompiler : Compiler where
  loader := .ofDictionary []
  schema := .object [("flag", .bool), ("n", .scalar)]

def flagEntry : Entry := .source (tagText "#flag" ++ tagText "n" ++ tagText "/flag") "main"

/-- The section only tests; the number is fixed in the model. -/
def flagProgram : Program :=
  ⟨"main", [.sect (.frame 0 ["flag"]) .condition [.interpolation (.frame 0 ["n"]) true]]⟩

theorem flag_compiles : ∃ s, flagCompiler.compileEntry flagEntry = .ok flagProgram s :=
  exists_of_program? (by cbv)

theorem flag_agrees :
    ∃ s q t, flagCompiler.compileEntry flagEntry = .ok flagProgram s ∧
      (∀ name ∈ flagCompiler.namesMet flagEntry, index? (firstSegment name).toList = none) ∧
      flagCompiler.untyped.compileEntry flagEntry = .ok q t ∧
      Conforms flagCompiler.schema (.object [("flag", .boolean true), ("n", .text "1")]) ∧
      ({} : Renderer).render q (.object [("flag", .boolean true), ("n", .text "1")]) = .ok "1" := by
  obtain ⟨s, run⟩ := flag_compiles
  have met : flagCompiler.namesMet flagEntry = ["flag", "n"] := by cbv
  have names : ∀ name ∈ flagCompiler.namesMet flagEntry, index? (firstSegment name).toList = none := by
    rw [met]
    decide
  have conforms : Conforms flagCompiler.schema (.object [("flag", .boolean true), ("n", .text "1")]) := by
    refine .object (by simp [Dictionary.keys]) fun name schema v known here => ?_
    by_cases flag : name = "flag"
    · obtain ⟨rfl, rfl⟩ : .bool = schema ∧ .boolean true = v := by simp_all [Dictionary.find?]
      exact .bool
    · obtain ⟨-, rfl⟩ : name = "n" ∧ .scalar = schema := by simpa [Dictionary.find?, flag] using known
      obtain ⟨-, rfl⟩ : name = "n" ∧ .text "1" = v := by simpa [Dictionary.find?, flag] using here
      exact .text
  obtain ⟨q, t, run', same⟩ := render_eq_render_untyped flagCompiler flagEntry flagProgram s run names
  exact ⟨s, q, t, run, names, run', conforms, (same {} _ conforms).symm⟩

end Compiler
end Mustache

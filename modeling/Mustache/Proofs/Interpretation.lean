import Mustache.Proofs.Interpreter
import Mustache.Proofs.Untyped

/-!
# Programs and interpretation

A compiled program renders what the interpreter gives (`render_eq_interpretSource`), also where a schema
has fixed at which value a name is found and what a section does (`interpretSource_of_compiles`). The
program and the interpreter are on the same stack but for repeated values: where a section only tests a
flag, the interpreter has the current value once more (`Follows`).
-/

namespace Mustache
open Text

/-- A stack with some of its values repeated. -/
inductive Stutters : List Value → List Value → Prop where
  | nil : Stutters [] []
  | push {v stack walked} (below : Stutters stack walked) : Stutters (v :: stack) (v :: walked)
  | again {v stack walked} (below : Stutters (v :: stack) walked) : Stutters (v :: stack) (v :: walked)

namespace Stutters

variable {stack walked : List Value}

theorem refl (stack : List Value) : Stutters stack stack := by
  induction stack with
  | nil => exact .nil
  | cons v outer ih => exact .push ih

theorem head?_eq (stutters : Stutters stack walked) : walked.head? = stack.head? := by
  cases stutters <;> rfl

theorem outward_eq (stutters : Stutters stack walked) (name : String) : outward name walked = outward name stack := by
  induction stutters with
  | nil => rfl
  | push _ ih => simp only [outward, ih]
  | @again v _ _ _ ih =>
    simp only [outward] at ih ⊢
    cases child : v.child? name with
    | none => simpa [child] using ih
    | some part => rfl

/-- Repeated values do not matter for a search. -/
theorem plainSearch_eq (stutters : Stutters stack walked) (name : String) :
    plainSearch walked name = plainSearch stack name := by
  simp only [plainSearch, stutters.head?_eq, stutters.outward_eq]

end Stutters

/-! ## Stacks below compiled sections -/

/-- The stack of a program fits the schemas of a scope, and the interpreter is on the same stack but for
repeated values. -/
structure Follows (scope : Scope) (stack walked : List Value) : Prop where
  fits : List.Forall₂ Conforms scope.values stack
  stutters : Stutters stack walked

section

variable {c : Compiler} {scope : Scope} {stack walked : List Value} {name : String} {q : Resolution} {s : Schema}
  {v : Value}

theorem Follows.border (follows : Follows scope stack walked) {frame : Frame} (none : frame.schema? = none) :
    Follows (scope.push frame) stack walked := by
  refine ⟨?_, follows.stutters⟩
  simpa [Scope.values_push, none] using follows.fits

theorem Follows.value (follows : Follows scope stack walked) (conforms : Conforms s v) :
    Follows (scope.push (.value s)) (v :: stack) (v :: walked) :=
  ⟨.cons conforms follows.fits, .push follows.stutters⟩

theorem Follows.exists_head (follows : Follows scope stack walked) :
    ∃ current outer, stack = current :: outer ∧ Conforms scope.innermost current := by
  obtain ⟨current, top, conforms⟩ := innermost_of_fits follows.fits
  obtain ⟨outer, rfl⟩ := List.head?_eq_some_iff.mp top
  exact ⟨current, outer, rfl, conforms⟩

/-- What a section pushes for its value has a shape. -/
def Brings (s : Schema) : Value → Prop
  | .array items => ∀ item ∈ items, Conforms s item
  | .boolean true => s = .any
  | v => Conforms s v

/-- A section that adds a value adds the same values for the interpreter. -/
theorem Follows.pushed (follows : Follows scope stack walked) {value : Option Value}
    (brings : ∀ v, value = some v → Brings s v) :
    List.Forall₂ (Follows (scope.push (.value s))) (Renderer.sectionStacks .dynamic value stack)
      (bodyStacks false value walked) := by
  rcases value with - | v
  · exact .nil
  · have whole : Conforms s v → List.Forall₂ (Follows (scope.push (.value s))) [v :: stack] [v :: walked] :=
      fun conforms => .cons (follows.value conforms) .nil
    have shape := brings v rfl
    cases v with
    | null => exact .nil
    | boolean b =>
      cases b with
      | false => exact .nil
      | true =>
        obtain ⟨current, outer, rfl, _⟩ := follows.exists_head
        obtain rfl : s = .any := shape
        have top : walked.head? = some current := follows.stutters.head?_eq
        simpa [Renderer.sectionStacks, bodyStacks, top] using follows.value .any
    | array items =>
      refine List.forall₂_map_left_iff.mpr (List.forall₂_map_right_iff.mpr (List.forall₂_same.mpr ?_))
      exact fun item member => follows.value (shape item member)
    | number n => exact whole shape
    | text content => exact whole shape
    | object entries => exact whole shape

/-- Sections that only test push nothing; the interpreter pushes the current value again where one is true. -/
theorem Follows.tested (follows : Follows scope stack walked) {value : Option Value}
    (flag : ∀ v, value = some v → ∃ b, v = .boolean b) :
    List.Forall₂ (Follows (scope.push .test)) (Renderer.sectionStacks .condition value stack)
      (bodyStacks false value walked) := by
  rcases value with - | v
  · exact .nil
  · obtain ⟨b, rfl⟩ := flag v rfl
    cases b with
    | false => exact .nil
    | true =>
      obtain ⟨current, outer, rfl, _⟩ := follows.exists_head
      have top : walked.head? = some current := follows.stutters.head?_eq
      have repeated : Follows (scope.push .test) (current :: outer) (current :: walked) :=
        ⟨(follows.border rfl).fits, .again follows.stutters⟩
      simpa [Renderer.sectionStacks, bodyStacks, top, Value.truthy] using repeated

theorem Follows.inverted (follows : Follows scope stack walked) (value : Option Value) :
    List.Forall₂ (Follows (scope.push .test)) (Renderer.sectionStacks .inverted value stack)
      (bodyStacks true value walked) := by
  by_cases holds : Value.truthy value = true
  · simp [Renderer.sectionStacks, bodyStacks, holds]
  · simpa [Renderer.sectionStacks, bodyStacks, holds] using follows.border rfl

/-- What a name refers to is what the interpreter finds, of the shape that is known of it. -/
theorem Follows.eval (follows : Follows scope stack walked) (refers : c.resolution? scope name = some q)
    (within : ¬ Overruns (firstSegment name) scope.values stack) :
    q.lookup.eval? stack = plainSearch walked name ∧ ∀ v, q.lookup.eval? stack = some v → Conforms q.schema v := by
  rw [follows.stutters.plainSearch_eq, ← pick_eq_plainSearch follows.fits within, Scope.pick]
  unfold Compiler.resolution? at refers
  cases resolved : scope.resolve name with
  | some known =>
    obtain rfl : known = q := by simpa [resolved] using refers
    exact ⟨rfl, fun v picked => conforms_of_pick follows.fits resolved picked⟩
  | none =>
    cases policy : c.settings.unresolved with
    | fail => simp [resolved, policy] at refers
    | blank =>
      obtain rfl : ⟨.missing, .any⟩ = q := by simpa [resolved, policy] using refers
      refine ⟨rfl, fun v found => ?_⟩
      cases found

/-- The body of a section is rendered on the stacks on which the interpreter is, one by one. -/
theorem Follows.section_ (follows : Follows scope stack walked) (inverted : Bool)
    (refers : c.resolution? scope name = some q) (within : ¬ Overruns (firstSegment name) scope.values stack) :
    List.Forall₂ (Follows (scope.push (Compiler.sectionKind inverted q).2))
      (Renderer.sectionStacks (Compiler.sectionKind inverted q).1 (q.lookup.eval? stack) stack)
      (bodyStacks inverted (plainSearch walked name) walked) := by
  obtain ⟨found, conforms⟩ := follows.eval refers within
  rw [← found]
  unfold Compiler.sectionKind
  cases inverted with
  | true => exact follows.inverted _
  | false =>
    by_cases missing : q.lookup = .missing
    · simp only [missing, Bool.false_eq_true, if_true, if_false]
      exact .nil
    · simp only [missing, Bool.false_eq_true, if_false]
      cases shape : q.schema with
      | any =>
        refine follows.pushed fun v _ => ?_
        cases v with
        | array items => exact fun item _ => .any
        | boolean b => cases b <;> first | rfl | exact .any
        | _ => exact .any
      | bool =>
        refine follows.tested fun v here => ?_
        cases shape ▸ conforms v here with
        | bool => exact ⟨_, rfl⟩
      | scalar =>
        refine follows.pushed fun v here => ?_
        cases shape ▸ conforms v here with
        | number => exact .number
        | text => exact .text
      | list element =>
        refine follows.pushed fun v here => ?_
        cases shape ▸ conforms v here with
        | list each => exact each
      | object fields =>
        refine follows.pushed fun v here => ?_
        cases shape ▸ conforms v here with
        | object names each => exact .object names each

/-- No index overruns a list, since nothing is known or since no met name begins with an index. -/
def Unindexed (scope : Scope) (met : List (String × Resolution)) : Prop :=
  scope.Untyped ∨ ∀ m ∈ met, index? (firstSegment m.1).toList = none

theorem Unindexed.tail {m : String × Resolution} {met : List (String × Resolution)}
    (unindexed : Unindexed scope (m :: met)) : Unindexed scope met :=
  unindexed.imp id fun named => (List.forall_mem_cons.mp named).2

theorem Unindexed.after {inner met : List (String × Resolution)} (unindexed : Unindexed scope (inner ++ met)) :
    Unindexed scope met :=
  unindexed.imp id fun named => (List.forall_mem_append.mp named).2

theorem Unindexed.inside {inner met : List (String × Resolution)} (unindexed : Unindexed scope (inner ++ met)) :
    Unindexed (scope.push .boundary) inner :=
  unindexed.imp (fun untyped => untyped.border .boundary rfl) fun named => (List.forall_mem_append.mp named).1

theorem Unindexed.section_ {inner met : List (String × Resolution)} (inverted : Bool)
    (refers : c.resolution? scope name = some q) (unindexed : Unindexed scope ((name, q) :: (inner ++ met))) :
    Unindexed (scope.push (Compiler.sectionKind inverted q).2) inner := by
  refine unindexed.tail.imp (fun untyped => ?_) fun named => (List.forall_mem_append.mp named).1
  obtain ⟨known, resolved, unknown, _⟩ := untyped.resolution c name
  obtain rfl : known = q := Option.some.inj (resolved.symm.trans refers)
  exact untyped.section_ inverted unknown

theorem Unindexed.not_overruns {met : List (String × Resolution)} (unindexed : Unindexed scope met)
    (member : (name, q) ∈ met) (stack : List Value) : ¬ Overruns (firstSegment name) scope.values stack := by
  rcases unindexed with untyped | named
  · exact untyped.not_overruns stack
  · rintro ⟨i, element, items, n, _, _, index, _⟩
    cases (named _ member).symm.trans index

end

/-! ## The programs of statements -/

theorem mapM_eq_some_of_forall₂ {α β γ : Type} {R : α → β → Prop} {f : β → Option γ} {g : α → γ} {as : List α}
    {bs : List β} (related : List.Forall₂ R as bs) (each : ∀ a b, R a b → f b = some (g a)) :
    bs.mapM f = some (as.map g) := by
  induction related with
  | nil => rfl
  | cons first _ ih => simp [List.mapM_cons, each _ _ first, ih]

namespace Compiler

/-- The nodes of statements render what interpreting the statements gives. -/
theorem interpret_of_emits {c : Compiler} (r : Renderer) (spare : Nat) {levels : Nat} {scope : Scope}
    {chain : List String} {overrides : Overrides} {stmts : List Statement} {met : List (String × Resolution)}
    {nodes : List Node} (emits : Emits c levels scope chain overrides stmts met nodes) {stack walked : List Value}
    (follows : Follows scope stack walked) (unindexed : Unindexed scope met) (ordered : Dictionary.Ordered overrides) :
    c.interpret r (spare + levels + 1) (blocksOf overrides) walked stmts = some (r.rendered stack nodes) := by
  -- Every section has stacks of its own, so the induction is for all that follow each other; a level less for
  -- the bodies is a level less for the interpreter.
  induction emits generalizing stack walked with
  | nil => rfl
  | text _ after =>
    rw [Renderer.rendered_cons, Renderer.rendered_text]
    exact interpret_cons rfl (after follows unindexed ordered)
  | interpolation refers _ after =>
    have settled := unindexed.not_overruns List.mem_cons_self stack
    rw [Renderer.rendered_cons, Renderer.rendered_interpolation, (follows.eval refers settled).1]
    exact interpret_cons rfl (after follows unindexed.tail ordered)
  | lambda calls _ _ within after =>
    have inside := within (follows.border rfl) unindexed.inside ordered
    rw [Renderer.rendered_cons, Renderer.rendered_lambda, Renderer.rendered_joined, ← follows.stutters.head?_eq]
    exact interpret_cons ((interpretOne_lambda calls).trans (congrArg _ inside)) (after follows unindexed.after ordered)
  | @sect levels _ _ overrides name inverted body _ _ _ _ innerNodes _ q plain refers _ _ within after =>
    have settled := unindexed.not_overruns List.mem_cons_self stack
    have bodies : (bodyStacks inverted (plainSearch walked name) walked).mapM
        (fun s => c.interpret r (spare + levels + 1) (blocksOf overrides) s body) =
        some ((Renderer.sectionStacks (sectionKind inverted q).1 (q.lookup.eval? stack) stack).map
          fun s => r.rendered s innerNodes) :=
      mapM_eq_some_of_forall₂ (follows.section_ inverted refers settled) fun _ _ deeper =>
        within deeper (unindexed.section_ inverted refers) ordered
    rw [Renderer.rendered_cons, Renderer.rendered_sect]
    simp only [Renderer.rendered_joined]
    exact interpret_cons ((interpretOne_sect plain).trans (congrArg _ bodies)) (after follows unindexed.tail.after ordered)
  | inclusion _ loaded parsed _ _ within after =>
    have inside := within (follows.border rfl) unindexed.inside Dictionary.ordered_nil
    rw [blocksOf_nil] at inside
    rw [Renderer.rendered_append]
    exact interpret_cons ((interpretOne_inclusion (statements?_eq loaded parsed)).trans inside)
      (after follows unindexed.after ordered)
  | parent _ loaded parsed _ _ within after =>
    have inside := within (follows.border rfl) unindexed.inside ((Dictionary.ordered_ofList _).insertAll _)
    rw [blocksOf_insertAll ordered] at inside
    rw [Renderer.rendered_append]
    exact interpret_cons ((interpretOne_parent (statements?_eq loaded parsed)).trans inside)
      (after follows unindexed.after ordered)
  | replaced found _ _ within after =>
    have inside := within (follows.border rfl) unindexed.inside (ordered.erase _)
    rw [blocksOf_erase] at inside
    rw [Renderer.rendered_append]
    exact interpret_cons ((interpretOne_replaced found).trans inside) (after follows unindexed.after ordered)
  | block own _ _ within after =>
    have inside := within (follows.border rfl) unindexed.inside ordered
    rw [Renderer.rendered_append]
    exact interpret_cons ((interpretOne_block own).trans inside) (after follows unindexed.after ordered)

/-- A compiled source renders what interpreting it gives, if the model has the shape that was known of it. -/
theorem interpretSource_of_compiles {c : Compiler} {source name : String} {met : List (String × Resolution)}
    {p : Program} (compiles : Compiles c source name met p) (unindexed : Unindexed { model := c.schema } met)
    (r : Renderer) {fuel : Nat} (enough : c.settings.maxDepth < fuel) {model : Value} (conforms : Conforms c.schema model) :
    c.interpretSource r fuel source model = some (r.render p model) := by
  obtain ⟨stmts, nodes, parsed, emits, rfl⟩ := compiles
  have follows : Follows { model := c.schema } [model] [model] := ⟨.cons conforms .nil, .refl _⟩
  have gives := interpret_of_emits r 0 emits follows unindexed Dictionary.ordered_nil
  have more : c.interpret r fuel .own [model] stmts = some (r.rendered [model] nodes) :=
    interpret_mono (by omega) gives
  rw [Renderer.render_eq_result, interpretSource, parsed]
  exact more.trans (congrArg some (r.rendered_joined [model] nodes).symm)

/-- Compiling and rendering comes to interpreting: a program that is compiled without a schema renders what
the interpreter gives where levels are left, and the interpreter gives nothing else. -/
theorem render_eq_interpretSource (c : Compiler) (untyped : c.schema = .any) (source name : String) (p : Program)
    (s : CompileState) (run : c.compile source name = .ok p s) (r : Renderer) (model : Value) :
    (∀ fuel, c.settings.maxDepth < fuel → c.interpretSource r fuel source model = some (r.render p model)) ∧
      ∀ fuel result, c.interpretSource r fuel source model = some result → r.render p model = result := by
  obtain ⟨met, compiles, _⟩ := compiles_of_compile run
  have free : Scope.Untyped { model := c.schema } := fun t member => (List.mem_singleton.mp member).trans untyped
  have gives : ∀ fuel, c.settings.maxDepth < fuel → c.interpretSource r fuel source model = some (r.render p model) :=
    fun fuel enough => interpretSource_of_compiles compiles (.inl free) r enough (untyped ▸ .any)
  refine ⟨gives, fun fuel result same => ?_⟩
  obtain ⟨stmts, parsed, inside⟩ := Option.bind_eq_some_iff.mp same
  have further : c.interpretSource r (fuel + c.settings.maxDepth + 1) source model = some result :=
    Option.bind_eq_some_iff.mpr ⟨stmts, parsed, interpret_mono (by omega) inside⟩
  rw [gives _ (by omega)] at further
  exact Option.some.inj further

def layoutCompiler : Compiler where
  loader := .ofDictionary [("layout", "<" ++ tagText "$title" ++ "none" ++ tagText "/title" ++ ">")]

/-- The title is replaced by what is written for every item. -/
def layoutSource : String :=
  tagText "<layout" ++ tagText "$title" ++ tagText "#items" ++ tagText "." ++ ";" ++ tagText "/items" ++
    tagText "/title" ++ tagText "/layout"

def layoutProgram : Program :=
  ⟨"main", [.text "<", .sect (.search 0 ["items"]) .dynamic [.interpolation (.current 0) true, .text ";"], .text ">"]⟩

theorem layout_compiles : ∃ s, layoutCompiler.compile layoutSource "main" = .ok layoutProgram s :=
  exists_of_program? (by cbv)

theorem layout_interpreted :
    ∃ s, layoutCompiler.schema = .any ∧ layoutCompiler.compile layoutSource "main" = .ok layoutProgram s ∧
      layoutCompiler.interpretSource {} 200 layoutSource (.object [("items", .array [.text "a", .text "b"])]) =
        some (.ok "<a;b;>") := by
  obtain ⟨s, run⟩ := layout_compiles
  have gives := (render_eq_interpretSource layoutCompiler rfl layoutSource "main" layoutProgram s run {}
    (.object [("items", .array [.text "a", .text "b"])])).1 200 (by decide)
  exact ⟨s, rfl, run, gives.trans rfl⟩

end Compiler
end Mustache

import Mustache.Proofs.Emission

/-!
# Compiling without a schema

Where nothing is known of the model, nothing is known anywhere (`Scope.Untyped`), and every name is looked
for while rendering. A source that compiles with a schema compiles without one, and the names that are met
are the same (`emits_untyped`). All of them are reported then, with a schema some (`namesMet_of_compiles`,
`resolvedNames_subset_namesMet`).
-/

namespace Mustache
open Text

/-! ## Scopes -/

/-- Nothing is known of any value in a scope. -/
def Scope.Untyped (scope : Scope) : Prop := ∀ s ∈ scope.values, s = .any

theorem Scope.descend?_any (path : List String) : descend? path .any = some .any := by
  induction path with
  | nil => rfl
  | cons name path ih =>
    rw [descend?_cons]
    exact ih

namespace Scope.Untyped

variable {c : Compiler} {scope : Scope} {name : String} {q : Resolution}

theorem innermost_eq (untyped : scope.Untyped) : scope.innermost = .any :=
  untyped _ (List.mem_of_mem_head? scope.head?_values)

theorem border (untyped : scope.Untyped) (frame : Frame) (none : frame.schema? = none) : (scope.push frame).Untyped := by
  rw [Untyped, values_push, none]
  exact untyped

theorem value (untyped : scope.Untyped) : (scope.push (.value .any)).Untyped := List.forall_mem_cons.mpr ⟨rfl, untyped⟩

/-- The frame of a section whose value is not known. -/
theorem section_ (untyped : scope.Untyped) (inverted : Bool) (unknown : q.schema = .any) :
    (scope.push (Compiler.sectionKind inverted q).2).Untyped := by
  have test : (scope.push .test).Untyped := untyped.border .test rfl
  unfold Compiler.sectionKind
  cases inverted with
  | true => exact test
  | false =>
    by_cases missing : q.lookup = .missing
    · simpa [missing] using test
    · simpa [missing, unknown] using untyped.value

/-- Where nothing is known, every name refers to something, of which nothing is known. -/
theorem resolve (untyped : scope.Untyped) (name : String) : ∃ q, scope.resolve name = some q ∧ q.schema = .any := by
  rcases name_cases name with direct | ⟨indirect, first, rest, parts, rfl | other⟩
  · exact ⟨_, resolve_innermost direct, untyped.innermost_eq⟩
  · rw [resolve_this indirect parts, untyped.innermost_eq, descend?_any]
    exact ⟨_, rfl, rfl⟩
  · rw [resolve_outward indirect parts other]
    rcases walk_cases first 0 scope.values with ⟨_, absent⟩ | ⟨i, s, stops, ⟨t, found, _⟩ | ⟨_, answer⟩⟩
    · have innermost := absent _ (List.mem_of_mem_head? scope.head?_values)
      rw [untyped.innermost_eq] at innermost
      cases innermost
    · rw [untyped s (List.mem_of_getElem? stops.1)] at found
      cases found
    · simp only [answer, Option.bind_some, descend?_any]
      exact ⟨_, rfl, rfl⟩

theorem resolution (untyped : scope.Untyped) (c : Compiler) (name : String) :
    ∃ q, c.resolution? scope name = some q ∧ q.schema = .any ∧ q.lookup ≠ .missing := by
  obtain ⟨q, resolved, unknown⟩ := untyped.resolve name
  exact ⟨q, by simp [Compiler.resolution?, resolved], unknown, resolve_ne_missing resolved⟩

/-- Without a list no index overruns one. -/
theorem not_overruns (untyped : scope.Untyped) (stack : List Value) : ¬ Overruns name scope.values stack := by
  rintro ⟨i, element, items, n, stops, -⟩
  cases untyped _ (List.mem_of_getElem? stops.1)

end Scope.Untyped

namespace Compiler

/-! ## Emitting -/

def untyped (c : Compiler) : Compiler := { c with schema := .any }

/-- What is emitted in one scope is matched by what is emitted in a scope of which nothing is known: the same
names are met, all of which refer to something. -/
theorem emits_untyped {c : Compiler} {levels : Nat} {scope : Scope} {chain : List String} {overrides : Overrides}
    {stmts : List Statement} {met : List (String × Resolution)} {nodes : List Node}
    (emits : Emits c levels scope chain overrides stmts met nodes) {free : Scope} (untyped : free.Untyped) :
    ∃ met' nodes', Emits c.untyped levels free chain overrides stmts met' nodes' ∧
      met.map Prod.fst = met'.flatMap reportedName := by
  -- The frames of sections may differ; of either scope only the chain and the overrides are the same.
  induction emits generalizing free with
  | nil => exact ⟨[], [], .nil, rfl⟩
  | text _ after =>
    obtain ⟨met', nodes', emits, names⟩ := after untyped
    exact ⟨_, _, .text emits, names⟩
  | @interpolation _ _ _ _ name _ _ _ _ _ _ _ _ after =>
    obtain ⟨q, refers, _, somewhere⟩ := untyped.resolution c.untyped name
    obtain ⟨met', nodes', emits, names⟩ := after untyped
    exact ⟨_, _, .interpolation refers emits, by simp [names, reportedName, somewhere]⟩
  | lambda calls _ _ within after =>
    obtain ⟨inner, innerNodes, inside, innerNames⟩ := within (untyped.border .boundary rfl)
    obtain ⟨met', nodes', emits, names⟩ := after untyped
    exact ⟨_, _, .lambda calls inside emits, by simp [names, innerNames]⟩
  | @sect _ _ _ _ name inverted _ _ _ _ _ _ _ _ plain _ _ _ within after =>
    obtain ⟨q, refers, unknown, somewhere⟩ := untyped.resolution c.untyped name
    obtain ⟨inner, innerNodes, inside, innerNames⟩ := within (untyped.section_ inverted unknown)
    obtain ⟨met', nodes', emits, names⟩ := after untyped
    exact ⟨_, _, .sect plain refers inside emits, by simp [names, innerNames, reportedName, somewhere]⟩
  | inclusion fresh loaded parsed _ _ within after =>
    obtain ⟨inner, innerNodes, inside, innerNames⟩ := within (untyped.border .boundary rfl)
    obtain ⟨met', nodes', emits, names⟩ := after untyped
    exact ⟨_, _, .inclusion fresh loaded parsed inside emits, by simp [names, innerNames]⟩
  | parent fresh loaded parsed _ _ within after =>
    obtain ⟨inner, innerNodes, inside, innerNames⟩ := within (untyped.border .boundary rfl)
    obtain ⟨met', nodes', emits, names⟩ := after untyped
    exact ⟨_, _, .parent fresh loaded parsed inside emits, by simp [names, innerNames]⟩
  | replaced found _ _ within after =>
    obtain ⟨inner, innerNodes, inside, innerNames⟩ := within (untyped.border .boundary rfl)
    obtain ⟨met', nodes', emits, names⟩ := after untyped
    exact ⟨_, _, .replaced found inside emits, by simp [names, innerNames]⟩
  | block own _ _ within after =>
    obtain ⟨inner, innerNodes, inside, innerNames⟩ := within (untyped.border .boundary rfl)
    obtain ⟨met', nodes', emits, names⟩ := after untyped
    exact ⟨_, _, .block own inside emits, by simp [names, innerNames]⟩

/-- A source that compiles with a schema compiles without one, and every name that was met is reported then. -/
theorem untyped_of_compiles {c : Compiler} {source name : String} {met : List (String × Resolution)} {p : Program}
    (compiles : Compiles c source name met p) :
    ∃ met' q, Compiles c.untyped source name met' q ∧ met.map Prod.fst = met'.flatMap reportedName := by
  obtain ⟨stmts, nodes, parsed, emits, rfl⟩ := compiles
  have start : Scope.Untyped { model := c.untyped.schema } := fun s member => List.mem_singleton.mp member
  obtain ⟨met', nodes', free, names⟩ := emits_untyped emits start
  exact ⟨met', _, ⟨stmts, nodes', parsed, free, rfl⟩, names⟩

/-! ## Names -/

/-- The names of variables and sections that a compilation meets. Without a schema every one of them refers
to something and is reported. -/
def namesMet (c : Compiler) (entry : Entry) : List String :=
  match c.untyped.compileEntry entry with
  | .ok _ s | .error _ s => resolvedNames s.events

section

variable {c : Compiler} {entry : Entry} {source : String} {met : List (String × Resolution)} {p : Program}

theorem namesMet_of_compiles (found : c.entrySource? entry = some source) (compiles : Compiles c source entry.name met p) :
    c.namesMet entry = met.map Prod.fst := by
  obtain ⟨met', q, free, names⟩ := untyped_of_compiles compiles
  have found' : c.untyped.entrySource? entry = some source := found
  obtain ⟨t, run, reported⟩ := entry_of_compiles found' free
  rw [namesMet, run, names]
  exact reported

/-- A compilation with a schema reports none but the names that it meets. -/
theorem resolvedNames_subset_namesMet {s : CompileState} (run : c.compileEntry entry = .ok p s) :
    resolvedNames s.events ⊆ c.namesMet entry := by
  obtain ⟨source, met, found, compiles, names⟩ := compiles_of_entry run
  rw [names, namesMet_of_compiles found compiles]
  intro name member
  obtain ⟨m, inside, reported⟩ := List.mem_flatMap.mp member
  obtain ⟨_, rfl⟩ : m.2.lookup ≠ .missing ∧ name = m.1 := by simpa [reportedName] using reported
  exact List.mem_map.mpr ⟨m, inside, rfl⟩

end

end Compiler
end Mustache

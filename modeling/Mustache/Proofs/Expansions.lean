import Mustache.Proofs.Failures

/-!
# How deep overrides go

A block gives way to an override that may name the block again, or another override that names it back. An override
is out of force inside itself, so a block that is opened costs a level and the override pays for it: what the
statements and the overrides nest together never grows on the way down (`Opens.nesting`, `Descends.nesting`), and no
override is expanded again below itself (`Descends.expanded`).
-/

namespace Mustache

/-! ## Nesting -/

mutual
/-- How many sections and blocks stand within each other. A parent tag opens nothing here. -/
def Statement.nesting : Statement → Nat
  | .text _ | .interpolation _ _ _ | .inclusion _ _ _ | .parent _ _ _ => 0
  | .sect _ _ body _ | .block _ body _ => Statement.nestingAll body + 1

def Statement.nestingAll : List Statement → Nat
  | [] => 0
  | s :: r => max s.nesting (Statement.nestingAll r)
end

mutual
/-- No template is included, however deep. -/
def Statement.selfContained : Statement → Bool
  | .text _ | .interpolation _ _ _ => true
  | .sect _ _ body _ | .block _ body _ => Statement.selfContainedAll body
  | .inclusion _ _ _ | .parent _ _ _ => false

def Statement.selfContainedAll : List Statement → Bool
  | [] => true
  | s :: r => s.selfContained && Statement.selfContainedAll r
end

/-- What the bodies of all overrides nest, one below the other. -/
def Overrides.nesting (overrides : Overrides) : Nat := (overrides.map fun entry => Statement.nestingAll entry.2).sum

def Overrides.SelfContained (overrides : Overrides) : Prop :=
  ∀ entry ∈ overrides, Statement.selfContainedAll entry.2 = true

namespace Statement

variable {stmt : Statement} {stmts rest : List Statement}

theorem nesting_le_nestingAll (member : stmt ∈ stmts) : stmt.nesting ≤ nestingAll stmts := by
  induction stmts with
  | nil => cases member
  | cons s r ih =>
    rw [nestingAll]
    rcases List.mem_cons.mp member with rfl | later
    · exact Nat.le_max_left ..
    · exact Nat.le_trans (ih later) (Nat.le_max_right ..)

theorem selfContainedAll_cons_iff :
    selfContainedAll (stmt :: rest) = true ↔ stmt.selfContained = true ∧ selfContainedAll rest = true := by
  rw [selfContainedAll, Bool.and_eq_true]

end Statement

namespace Overrides

variable {name : String} {body : List Statement} {overrides : Overrides}

theorem nesting_erase_le (name : String) (overrides : Overrides) :
    nesting (Dictionary.erase name overrides) ≤ nesting overrides := by
  induction overrides with
  | nil => exact Nat.le_refl 0
  | cons entry r ih =>
    by_cases same : entry.1 = name
    · have left : Dictionary.erase name (entry :: r) = Dictionary.erase name r := by simp [Dictionary.erase, same]
      rw [left]
      exact Nat.le_trans ih (Nat.le_add_left ..)
    · have kept : Dictionary.erase name (entry :: r) = entry :: Dictionary.erase name r := by
        simp [Dictionary.erase, same]
      rw [kept]
      exact Nat.add_le_add_left ih _

/-- An override that is expanded gives up its share. -/
theorem nesting_erase (found : Dictionary.find? name overrides = some body) :
    Statement.nestingAll body + nesting (Dictionary.erase name overrides) ≤ nesting overrides := by
  induction overrides with
  | nil => cases found
  | cons entry r ih =>
    obtain ⟨key, first⟩ := entry
    by_cases same : name = key
    · subst same
      obtain rfl : first = body := by simpa [Dictionary.find?] using found
      have left : Dictionary.erase name ((name, first) :: r) = Dictionary.erase name r := by simp [Dictionary.erase]
      rw [left]
      exact Nat.add_le_add_left (nesting_erase_le name r) _
    · have later : Dictionary.find? name r = some body := by simpa [Dictionary.find?, same] using found
      have kept : Dictionary.erase name ((key, first) :: r) = (key, first) :: Dictionary.erase name r := by
        simp [Dictionary.erase, Ne.symm same]
      have below := ih later
      rw [kept]
      simp only [nesting, List.map_cons, List.sum_cons] at below ⊢
      omega

theorem SelfContained.erase (whole : SelfContained overrides) (name : String) :
    SelfContained (Dictionary.erase name overrides) := by
  intro entry member
  exact whole entry (List.mem_of_mem_filter member)

end Overrides

namespace Compiler

section

variable {c : Compiler} {scope : Scope} {overrides inner : Overrides} {stmt : Statement} {body : List Statement}
  {position : Position} {frame : Frame}

/-- A body that is opened costs a level, for which the statement or an override pays. -/
theorem Opens.nesting (opens : c.Opens scope overrides stmt position frame inner body) :
    Statement.nestingAll body + inner.nesting + 1 ≤ stmt.nesting + overrides.nesting := by
  cases opens with
  | lambda _ => simp only [Statement.nesting]; omega
  | sect _ _ => simp only [Statement.nesting]; omega
  | replaced found =>
    have paid := Overrides.nesting_erase found
    simp only [Statement.nesting]
    omega
  | block _ => simp only [Statement.nesting]; omega

theorem Opens.selfContained (opens : c.Opens scope overrides stmt position frame inner body)
    (whole : stmt.selfContained = true) (wholeOverrides : overrides.SelfContained) :
    Statement.selfContainedAll body = true ∧ inner.SelfContained := by
  cases opens with
  | lambda _ => exact ⟨whole, wholeOverrides⟩
  | sect _ _ => exact ⟨whole, wholeOverrides⟩
  | replaced found => exact ⟨wholeOverrides _ (Dictionary.mem_of_find? found), wholeOverrides.erase _⟩
  | block _ => exact ⟨whole, wholeOverrides⟩

theorem not_selfContained_of_includes {name indent : String}
    (includes : Includes overrides stmt name indent position inner) : stmt.selfContained = false := by
  cases includes <;> rfl

end

/-! ## Down to a body -/

/-- The override that a statement is expanded to, by name. -/
def expansion? (overrides : Overrides) : Statement → Option String
  | .block name _ _ => (Dictionary.find? name overrides).map fun _ => name
  | _ => none

/-- Statements and, at the end of a chain of bodies that are opened one within the other, further ones, with the names
of the overrides that are expanded on the way. -/
inductive Descends (c : Compiler) :
    Scope → Overrides → List Statement → List String → Scope → Overrides → List Statement → Prop where
  | here {scope overrides stmts} : Descends c scope overrides stmts [] scope overrides stmts
  | opened {scope overrides stmts stmt position frame inner body names scope' overrides' stmts'} (member : stmt ∈ stmts)
      (opens : c.Opens scope overrides stmt position frame inner body)
      (further : Descends c (scope.push frame) inner body names scope' overrides' stmts') :
    Descends c scope overrides stmts ((expansion? overrides stmt).toList ++ names) scope' overrides' stmts'

section

variable {c : Compiler} {levels limit : Nat} {scope scope' : Scope} {overrides overrides' inner : Overrides}
  {stmt : Statement} {stmts stmts' rest body : List Statement} {names chain : List String} {key : String}
  {position : Position} {frame : Frame} {e : CompileError}

/-- An override is out of force inside itself, and nothing else changes. -/
theorem Opens.mem_keys_iff (opens : c.Opens scope overrides stmt position frame inner body) :
    key ∈ Dictionary.keys inner ↔ key ∈ Dictionary.keys overrides ∧ expansion? overrides stmt ≠ some key := by
  cases opens with
  | lambda _ => simp [expansion?]
  | sect _ _ => simp [expansion?]
  | @replaced name _ _ _ found =>
    simp only [expansion?, found, Option.map_some, ne_eq, Option.some.injEq, Dictionary.keys, Dictionary.erase,
      List.mem_map, List.mem_filter, decide_eq_true_eq]
    constructor
    · rintro ⟨entry, ⟨member, other⟩, rfl⟩
      exact ⟨⟨entry, member, rfl⟩, fun same => other same.symm⟩
    · rintro ⟨⟨entry, member, rfl⟩, other⟩
      exact ⟨entry, ⟨member, fun same => other same.symm⟩, rfl⟩
  | block own => simp [expansion?, own]

theorem mem_keys_of_expansion? (expanded : expansion? overrides stmt = some key) : key ∈ Dictionary.keys overrides := by
  cases stmt with
  | block name body position =>
    simp only [expansion?, Option.map_eq_some_iff] at expanded
    obtain ⟨replacement, found, rfl⟩ := expanded
    by_contra absent
    cases found.symm.trans (Dictionary.find?_eq_none_iff.mpr absent)
  | _ => cases expanded

/-- The depth and what is still to be nested never grow together. -/
theorem Descends.nesting (descends : c.Descends scope overrides stmts names scope' overrides' stmts') :
    scope'.depth + Statement.nestingAll stmts' + overrides'.nesting ≤
      scope.depth + Statement.nestingAll stmts + overrides.nesting := by
  induction descends with
  | here => exact Nat.le_refl _
  | @opened scope overrides stmts stmt position frame inner body _ _ _ _ member opens _ ih =>
    have deeper : (scope.push frame).depth = scope.depth + 1 := rfl
    have paid := opens.nesting
    have inside := Statement.nesting_le_nestingAll member
    omega

/-- What is expanded on the way was in force before, and is not in force at the end. -/
theorem Descends.expanded (descends : c.Descends scope overrides stmts names scope' overrides' stmts') :
    (∀ name ∈ names, name ∈ Dictionary.keys overrides) ∧ names.Nodup := by
  induction descends with
  | here => exact ⟨fun _ member => absurd member List.not_mem_nil, List.nodup_nil⟩
  | @opened _ overrides _ stmt _ _ inner _ names _ _ _ _ opens _ ih =>
    obtain ⟨inForce, once⟩ := ih
    have kept : ∀ name ∈ names, name ∈ Dictionary.keys overrides ∧ expansion? overrides stmt ≠ some name :=
      fun name member => opens.mem_keys_iff.mp (inForce name member)
    cases expanded : expansion? overrides stmt with
    | none => exact ⟨fun name member => (kept name member).1, once⟩
    | some first =>
      constructor
      · intro name member
        rcases List.mem_cons.mp member with rfl | later
        · exact mem_keys_of_expansion? expanded
        · exact (kept name later).1
      · refine List.nodup_cons.mpr ⟨fun again => ?_, once⟩
        exact (kept first again).2 expanded

/-- Where no template is included, levels run out only at the end of a chain that uses them all. -/
theorem descends_of_tooDeep (fails : Fails c levels scope chain overrides stmts e)
    (whole : Statement.selfContainedAll stmts = true) (wholeOverrides : overrides.SelfContained)
    (deep : e.fault = .tooDeep limit position) :
    ∃ names scope' overrides' stmts', c.Descends scope overrides stmts names scope' overrides' stmts' ∧
      scope'.depth = scope.depth + levels + 1 := by
  induction fails with
  | @later _ _ _ _ stmt _ _ _ _ _ _ ih =>
    obtain ⟨names, scope', overrides', stmts', descends, depth⟩ :=
      ih (Statement.selfContainedAll_cons_iff.mp whole).2 wholeOverrides deep
    cases descends with
    | here => exact absurd depth (by omega)
    | opened member opens further => exact ⟨_, _, _, _, .opened (List.mem_cons_of_mem _ member) opens further, depth⟩
  | unresolved _ _ => cases deep
  | tooDeep opens => exact ⟨_, _, _, _, .opened List.mem_cons_self opens .here, rfl⟩
  | @inside levels scope _ _ _ _ _ frame _ _ _ opens _ ih =>
    obtain ⟨wholeBody, wholeInner⟩ := opens.selfContained (Statement.selfContainedAll_cons_iff.mp whole).1 wholeOverrides
    obtain ⟨names, scope', overrides', stmts', descends, depth⟩ := ih wholeBody wholeInner deep
    have deeper : (scope.push frame).depth = scope.depth + 1 := rfl
    exact ⟨_, _, _, _, .opened List.mem_cons_self opens descends, by omega⟩
  | circular includes _ | includedTooDeep includes _ | unloaded includes _ _ | unreadable includes _ _ _
  | included includes _ _ _ _ _ =>
    have first := (Statement.selfContainedAll_cons_iff.mp whole).1
    rw [not_selfContained_of_includes includes] at first
    cases first

end

/-! ## Runs -/

/-- Statements that include no template, with overrides that include none either, are never too deep where there is
room for what they and all overrides nest, however the overrides name each other; and no override is expanded again
below itself. -/
theorem overrides_never_recurse (c : Compiler) {overrides : Overrides} {stmts : List Statement}
    (whole : Statement.selfContainedAll stmts = true) (wholeOverrides : overrides.SelfContained) :
    (∀ (before : List Node) (s t : CompileState) (e : CompileError) (limit : Nat) (position : Position),
      s.scope.depth + Statement.nestingAll stmts + overrides.nesting ≤ c.settings.maxDepth →
      emitAll (c.emitter (c.settings.maxDepth - s.scope.depth)) overrides before stmts s = .error e t →
      e.fault ≠ .tooDeep limit position) ∧
    ∀ (scope scope' : Scope) (names : List String) (overrides' : Overrides) (stmts' : List Statement),
      c.Descends scope overrides stmts names scope' overrides' stmts' →
      (∀ name ∈ names, name ∈ Dictionary.keys overrides) ∧ names.Nodup := by
  constructor
  · intro before s t e limit position room failed deep
    have fails := fails_of_error c _ failed
    obtain ⟨names, scope', overrides', stmts', descends, depth⟩ := descends_of_tooDeep fails whole wholeOverrides deep
    have bound := descends.nesting
    omega
  · intro scope scope' names overrides' stmts' descends
    exact descends.expanded

/-- Two overrides that name each other's block, and the first its own again through the second. -/
def mutualOverrides : Overrides := [("a", [.block "b" [] {}]), ("b", [.block "a" [.text "x"] {}])]

def shallowCompiler : Compiler where
  loader := .ofDictionary []
  settings := { maxDepth := 3 }

/-- Three levels are enough for a block and two overrides. -/
theorem mutual_overrides_end :
    (Statement.selfContainedAll [.block "a" [] {}] = true ∧ mutualOverrides.SelfContained) ∧
    (∀ (before : List Node) (t : CompileState) (e : CompileError) (limit : Nat) (position : Position),
      emitAll (shallowCompiler.emitter 3) mutualOverrides before [.block "a" [] {}] shallowCompiler.start = .error e t →
      e.fault ≠ .tooDeep limit position) ∧
    ∃ (names : List String) (scope : Scope),
      shallowCompiler.Descends { model := .any } mutualOverrides [.block "a" [] {}] names scope [] [.text "x"] ∧
      names = ["a", "b"] ∧ names.Nodup := by
  have whole : Statement.selfContainedAll [.block "a" [] {}] = true := by decide
  have wholeOverrides : mutualOverrides.SelfContained := by simp [Overrides.SelfContained, mutualOverrides,
    Statement.selfContainedAll, Statement.selfContained]
  have settled := overrides_never_recurse shallowCompiler whole wholeOverrides
  have room : shallowCompiler.start.scope.depth + Statement.nestingAll [.block "a" [] {}] +
      mutualOverrides.nesting ≤ 3 := by
    decide
  -- The block of the first override is expanded to the second, and the block in there stands for itself.
  have chain : shallowCompiler.Descends { model := .any } mutualOverrides [.block "a" [] {}]
      (["a"] ++ (["b"] ++ ([] ++ []))) ⟨.any, [.boundary, .boundary, .boundary]⟩ [] [.text "x"] :=
    .opened List.mem_cons_self (.replaced rfl)
      (.opened List.mem_cons_self (.replaced rfl) (.opened List.mem_cons_self (.block rfl) .here))
  refine ⟨⟨whole, wholeOverrides⟩, fun before t e limit position => ?_, _, _, chain, rfl, ?_⟩
  · exact settled.1 before shallowCompiler.start t e limit position room
  · exact (settled.2 _ _ _ _ _ chain).2

end Compiler
end Mustache

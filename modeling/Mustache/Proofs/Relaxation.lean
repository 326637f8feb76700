import Mustache.Proofs.Failures
import Mustache.Proofs.Relocation

/-!
# Settings that let more pass

With more levels, and with names let pass that refer to nothing, a compilation comes to the same: a program stays
that program, and an error stays that error unless it is one of those that the settings are about
(`Compiler.compileEntry_relaxed`). What statements emit and how they fail is carried from one compiler to the other,
case by case.
-/

namespace Mustache
open Text

namespace Compiler

/-- The compiler with another number of levels, and another way with names that refer to nothing. -/
def relaxed (c : Compiler) (depth : Nat) (policy : UnresolvedPolicy) : Compiler :=
  { c with settings := { c.settings with maxDepth := depth, unresolved := policy } }

/-- A policy that fails on no name that another lets pass. -/
def Laxer (policy other : UnresolvedPolicy) : Prop := other = policy ∨ policy = .fail ∧ other = .blank

instance (policy other : UnresolvedPolicy) : Decidable (Laxer policy other) := inferInstanceAs (Decidable (_ ∨ _))

end Compiler

/-- The faults that settings can spare. -/
def Fault.Spared : Fault → Prop
  | .tooDeep .. | .unresolvedReference .. => True
  | _ => False

instance (fault : Fault) : Decidable fault.Spared := by
  cases fault <;> unfold Fault.Spared <;> infer_instance

section

variable {c : Compiler} {depth levels levels' : Nat} {policy : UnresolvedPolicy} {scope : Scope} {chain : List String}
  {overrides inner : Overrides} {stmt : Statement} {stmts body : List Statement} {met : List (String × Resolution)}
  {nodes : List Node} {name : String} {position : Position} {frame : Frame} {r : Resolution} {e : CompileError}

/-! ## Statements -/

/-- A name that refers to something, or is let pass, does so with the laxer policy. -/
theorem Compiler.resolution?_relaxed (laxer : Laxer c.settings.unresolved policy)
    (refers : c.resolution? scope name = some r) : (c.relaxed depth policy).resolution? scope name = some r := by
  unfold resolution? at refers ⊢
  cases resolved : scope.resolve name with
  | some q => simpa [resolved] using refers
  | none =>
    rcases laxer with rfl | ⟨fails, _⟩
    · simpa [resolved, relaxed] using refers
    · simp [resolved, fails] at refers

theorem Compiler.Opens.relaxed (laxer : Laxer c.settings.unresolved policy)
    (opens : c.Opens scope overrides stmt position frame inner body) (depth : Nat) :
    (c.relaxed depth policy).Opens scope overrides stmt position frame inner body := by
  cases opens with
  | lambda calls => exact .lambda calls
  | sect plain refers => exact .sect plain (resolution?_relaxed laxer refers)
  | replaced found => exact .replaced found
  | block own => exact .block own

/-- What statements emit they emit with the laxer policy. -/
theorem Emits.relaxed (laxer : Compiler.Laxer c.settings.unresolved policy)
    (emits : Emits c levels scope chain overrides stmts met nodes) (depth : Nat) :
    Emits (c.relaxed depth policy) levels scope chain overrides stmts met nodes := by
  induction emits with
  | nil => exact .nil
  | text _ after => exact .text after
  | interpolation refers _ after => exact .interpolation (Compiler.resolution?_relaxed laxer refers) after
  | lambda calls _ _ within after => exact .lambda calls within after
  | sect plain refers _ _ within after => exact .sect plain (Compiler.resolution?_relaxed laxer refers) within after
  | inclusion fresh loaded parsed _ _ within after => exact .inclusion fresh loaded parsed within after
  | parent fresh loaded parsed _ _ within after => exact .parent fresh loaded parsed within after
  | replaced found _ _ within after => exact .replaced found within after
  | block own _ _ within after => exact .block own within after

/-- Statements that fail do so with the laxer policy and with more levels, unless that is what they failed for. -/
theorem Fails.relaxed (laxer : Compiler.Laxer c.settings.unresolved policy)
    (fails : Fails c levels scope chain overrides stmts e) (other : ¬ e.fault.Spared) (more : levels ≤ levels')
    (depth : Nat) : Fails (c.relaxed depth policy) levels' scope chain overrides stmts e := by
  induction fails generalizing levels' with
  | later first _ behind =>
    exact .later ((first.elsewhere more (List.Subset.refl _) rfl).relaxed laxer depth) (behind other more)
  | unresolved | tooDeep | includedTooDeep => exact absurd trivial other
  | inside opens _ within =>
    obtain ⟨k, rfl⟩ : ∃ k, levels' = k + 1 := Nat.exists_eq_add_one_of_ne_zero (by omega)
    exact .inside (opens.relaxed laxer depth) (within other (Nat.le_of_succ_le_succ more))
  | circular includes again => exact .circular includes again
  | unloaded includes fresh refused =>
    obtain ⟨k, rfl⟩ : ∃ k, levels' = k + 1 := Nat.exists_eq_add_one_of_ne_zero (by omega)
    exact .unloaded includes fresh refused
  | unreadable includes fresh loaded faulty =>
    obtain ⟨k, rfl⟩ : ∃ k, levels' = k + 1 := Nat.exists_eq_add_one_of_ne_zero (by omega)
    exact .unreadable includes fresh loaded faulty
  | included includes fresh loaded parsed _ within =>
    obtain ⟨k, rfl⟩ : ∃ k, levels' = k + 1 := Nat.exists_eq_add_one_of_ne_zero (by omega)
    exact .included includes fresh loaded parsed (within other (Nat.le_of_succ_le_succ more))

end

/-! ## Compilations -/

namespace Compiler

section

variable {c : Compiler} {depth : Nat} {policy : UnresolvedPolicy} {entry : Entry} {e : CompileError}

theorem FailsAt.relaxed (more : c.settings.maxDepth ≤ depth) (laxer : Laxer c.settings.unresolved policy)
    (fails : c.FailsAt entry e) (other : ¬ e.fault.Spared) : (c.relaxed depth policy).FailsAt entry e := by
  cases fails with
  | refused refused => exact .refused refused
  | unreadable found faulty => cases entry <;> exact .unreadable found faulty
  | within found parsed fails =>
    have fails : Fails (c.relaxed depth policy) depth { model := c.schema } [entry.name] [] _ e :=
      fails.relaxed laxer other more depth
    cases entry <;> exact .within found parsed fails

/-- With as many levels or more, and the same policy for unresolved names or the one that lets them pass, what
compiles compiles to the same program, and what does not compile fails with the same error, unless it went too
deep or met an unresolved name. -/
theorem compileEntry_relaxed (more : c.settings.maxDepth ≤ depth) (laxer : Laxer c.settings.unresolved policy)
    (entry : Entry) :
    match c.compileEntry entry with
    | .ok p _ => ∃ t, (c.relaxed depth policy).compileEntry entry = .ok p t
    | .error e _ => ¬ e.fault.Spared → ∃ t, (c.relaxed depth policy).compileEntry entry = .error e t := by
  cases run : c.compileEntry entry with
  | ok p s =>
    obtain ⟨source, met, found, ⟨stmts, nodes, parsed, emits, rfl⟩, _⟩ := compiles_of_entry run
    have emits : Emits (c.relaxed depth policy) depth { model := c.schema } [entry.name] [] stmts met nodes :=
      (emits.elsewhere more (List.Subset.refl _) rfl).relaxed laxer depth
    have found : (c.relaxed depth policy).entrySource? entry = some source := by cases entry <;> exact found
    obtain ⟨t, again, _⟩ := entry_of_compiles found ⟨stmts, nodes, parsed, emits, rfl⟩
    exact ⟨t, again⟩
  | error e s =>
    intro other
    exact failsAt_iff.mp ((failsAt_iff.mpr ⟨s, run⟩).relaxed more laxer other)

/-- A ring of templates is one with more levels and for every policy. -/
theorem ring_relaxed : ringCompiler.settings.maxDepth ≤ 100 ∧ Laxer ringCompiler.settings.unresolved .blank ∧
    ∃ t, (ringCompiler.relaxed 100 .blank).compile ringSource "root" = .error ringError t := by
  have more : ringCompiler.settings.maxDepth ≤ 100 := by decide
  have laxer : Laxer ringCompiler.settings.unresolved .blank := by decide
  obtain ⟨s, failed⟩ := ring_fails
  have failed : ringCompiler.compileEntry (.source ringSource "root") = .error ringError s := failed
  have again := compileEntry_relaxed more laxer (.source ringSource "root")
  rw [failed] at again
  exact ⟨more, laxer, again (by decide)⟩

end

end Compiler
end Mustache

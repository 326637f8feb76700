import Mustache.Proofs.Composition

/-!
# How a compilation is left

Whatever a part of a compilation comes to, it leaves the scope and the stack of templates as it found them
(`Compiler.everything_put_back`). An error tells the templates that were under compilation where it was met: their
chain begins with the entry template and names none of them twice, but for a template that includes itself, with
which it ends (`Compiler.chain_of_error`). Both are read off one property of all parts (`CompileM.Exits`).
-/

namespace Mustache
open Text

/-! ## Chains -/

namespace CompileError

/-- No name is twice on the chain of an error, except that a template which includes itself is named once more at
the end. -/
def SoundChain (e : CompileError) : Prop :=
  match e.fault with
  | .circularTemplate name => ∃ before, e.chain = before ++ [name] ∧ before.count name = 1 ∧ before.Nodup
  | _ => e.chain.Nodup

/-- An error that is met below some templates. Its chain is sound and goes on from them, by so many names at most. -/
structure Below (chain : List String) (n : Nat) (e : CompileError) : Prop where
  sound : e.SoundChain
  further : ∃ names, e.chain = chain ++ names ∧ names.length ≤ n

variable {chain : List String} {n : Nat} {name : String}

theorem soundChain_of_other {e : CompileError} (other : ∀ name, e.fault ≠ .circularTemplate name)
    (distinct : e.chain.Nodup) : e.SoundChain := by
  unfold SoundChain
  split
  · next name same => exact absurd same (other name)
  · exact distinct

theorem below_of_fault {fault : Fault} (other : ∀ name, fault ≠ .circularTemplate name) (distinct : chain.Nodup) :
    Below chain n ⟨fault, chain⟩ :=
  ⟨soundChain_of_other other distinct, [], (List.append_nil chain).symm, Nat.zero_le n⟩

/-- A template that is entered inside itself. -/
theorem below_of_circular (distinct : chain.Nodup) (again : name ∈ chain) :
    Below chain (n + 1) ⟨.circularTemplate name, chain ++ [name]⟩ := by
  refine ⟨⟨chain, rfl, ?_, distinct⟩, [name], rfl, by simp⟩
  exact List.count_eq_one_of_mem distinct again

/-- What is met below a template that is entered is met below those around it. -/
theorem Below.outside {e : CompileError} (below : Below (chain ++ [name]) n e) : Below chain (n + 1) e := by
  obtain ⟨sound, names, same, few⟩ := below
  refine ⟨sound, name :: names, ?_, ?_⟩
  · simp [same]
  · simpa using few

theorem Below.more {e : CompileError} (below : Below chain n e) : Below chain (n + 1) e := by
  obtain ⟨sound, names, same, few⟩ := below
  exact ⟨sound, names, same, Nat.le_succ_of_le few⟩

end CompileError

/-! ## Ways out -/

namespace CompileM

section

variable {α β : Type}

/-- The state when something is over, with or without an error. -/
def stateAfter : EStateM.Result CompileError CompileState α → CompileState
  | .ok _ t | .error _ t => t

/-- A result from which something is taken back. -/
def takenBack (drop : CompileState → CompileState) :
    EStateM.Result CompileError CompileState α → EStateM.Result CompileError CompileState α
  | .ok a t => .ok a (drop t)
  | .error e t => .error e (drop t)

/-- Something that leaves the place as it is however it ends, and whose errors are met there or below, by so many
templates at most. -/
def Exits (n : Nat) (m : CompileM α) : Prop :=
  ∀ s, Keeps s (stateAfter (m s)) ∧ ∀ e t, m s = .error e t → s.stack.chain.Nodup → e.Below s.stack.chain n

variable {n : Nat} {m : CompileM α} {s t : CompileState} {a : α} {e : CompileError}

theorem Exits.ok (exits : Exits n m) (run : m s = .ok a t) : Keeps s t := by
  simpa [run, stateAfter] using (exits s).1

theorem Exits.error (exits : Exits n m) (run : m s = .error e t) : Keeps s t := by
  simpa [run, stateAfter] using (exits s).1

theorem Exits.below (exits : Exits n m) (run : m s = .error e t) (distinct : s.stack.chain.Nodup) :
    e.Below s.stack.chain n :=
  (exits s).2 e t run distinct

/-- What succeeds always. -/
theorem exits_of_ok (always : ∀ s, ∃ a t, m s = .ok a t ∧ Keeps s t) : Exits n m := by
  intro s
  obtain ⟨a, t, run, keeps⟩ := always s
  refine ⟨by simpa [run, stateAfter] using keeps, ?_⟩
  intro e t failed
  cases run.symm.trans failed

theorem exits_fail {fault : Fault} (other : ∀ name, fault ≠ .circularTemplate name) :
    Exits n (fail fault : CompileM α) := by
  refine fun s => ⟨Keeps.refl s, ?_⟩
  intro e t failed distinct
  cases failed
  exact CompileError.below_of_fault other distinct

theorem Exits.bind {f : α → CompileM β} (first : Exits n m) (second : ∀ a, Exits n (f a)) : Exits n (m >>= f) := by
  refine fun s => ⟨?_, ?_⟩
  · simp only [Bind.bind, EStateM.bind]
    cases run : m s with
    | ok a t => exact (first.ok run).trans (second a t).1
    | error e t => exact first.error run
  · intro e t failed distinct
    rcases bind_error_iff.mp failed with here | ⟨a, u, run, later⟩
    · exact first.below here distinct
    · have same : u.stack = s.stack := (first.ok run).2
      exact same ▸ (second a).below later (same ▸ distinct)

theorem Exits.more (exits : Exits n m) : Exits (n + 1) m :=
  fun s => ⟨(exits s).1, fun _ _ failed distinct => (exits.below failed distinct).more⟩

theorem stateAfter_takenBack (drop : CompileState → CompileState) (r : EStateM.Result CompileError CompileState α) :
    stateAfter (takenBack drop r) = drop (stateAfter r) := by
  cases r <;> rfl

theorem takenBack_eq_error {drop : CompileState → CompileState} {r : EStateM.Result CompileError CompileState α} :
    takenBack drop r = .error e t ↔ ∃ u, r = .error e u ∧ drop u = t := by
  cases r <;> simp [takenBack, and_assoc]

theorem inFrame_eq (frame : Frame) (m : CompileM α) (s : CompileState) :
    inFrame frame m s = takenBack dropFrame (m { s with scope := s.scope.push frame }) := by
  unfold inFrame
  cases m { s with scope := s.scope.push frame } <;> rfl

theorem inTemplate_eq (name : String) (site : Option Position) (m : CompileM α) (s : CompileState) :
    inTemplate name site m s =
      if name ∈ s.stack.chain then .error ⟨.circularTemplate name, s.stack.chain ++ [name]⟩ s
      else takenBack dropTemplate (m { s with stack := ⟨⟨name, site⟩ :: s.stack.frames⟩ }) := by
  rw [inTemplate, push?_eq]
  by_cases again : name ∈ s.stack.chain
  · simp [again]
  · simp only [again, if_false]
    cases m { s with stack := ⟨⟨name, site⟩ :: s.stack.frames⟩ } <;> rfl

/-- A frame is taken back on every way out. -/
theorem Exits.inFrame (exits : Exits n m) (frame : Frame) : Exits n (inFrame frame m) := by
  intro s
  obtain ⟨⟨scope, stack⟩, below⟩ := exits { s with scope := s.scope.push frame }
  rw [inFrame_eq]
  refine ⟨⟨?_, ?_⟩, ?_⟩
  · rw [stateAfter_takenBack, dropFrame, scope, Scope.pop_push]
  · rw [stateAfter_takenBack]
    exact stack
  · intro e t failed
    obtain ⟨u, inner, _⟩ := takenBack_eq_error.mp failed
    exact below e u inner

/-- A template is taken back on every way out, and not put on the stack where it is on it. -/
theorem Exits.inTemplate (exits : Exits n m) (name : String) (site : Option Position) :
    Exits (n + 1) (inTemplate name site m) := by
  intro s
  rw [inTemplate_eq]
  by_cases again : name ∈ s.stack.chain
  · rw [if_pos again]
    refine ⟨Keeps.refl s, ?_⟩
    intro e t failed distinct
    cases failed
    exact CompileError.below_of_circular distinct again
  · rw [if_neg again]
    obtain ⟨⟨scope, stack⟩, below⟩ := exits { s with stack := ⟨⟨name, site⟩ :: s.stack.frames⟩ }
    refine ⟨⟨?_, ?_⟩, ?_⟩
    · rw [stateAfter_takenBack]
      exact scope
    · rw [stateAfter_takenBack, dropTemplate, stack]
      rfl
    · intro e t failed distinct
      obtain ⟨u, inner, _⟩ := takenBack_eq_error.mp failed
      have met := below e u inner
      rw [chain_push] at met
      exact (met (List.nodup_append_comm.mp (List.nodup_cons.mpr ⟨again, distinct⟩))).outside

end

end CompileM

/-! ## The compiler -/

namespace Compiler
open CompileM

theorem exits_request (c : Compiler) {n : Nat} (path : String) : Exits n (c.request path) := by
  intro s
  unfold request
  cases c.loader path with
  | ok text => exact ⟨⟨rfl, rfl⟩, nofun⟩
  | error cause =>
    refine ⟨⟨rfl, rfl⟩, ?_⟩
    intro e t failed distinct
    cases failed
    exact CompileError.below_of_fault nofun distinct

/-- All parts of a compilation leave it in order. -/
theorem exits_compositional (c : Compiler) : c.Compositional c.loader fun n _ x _ => Exits n x where
  value a := exits_of_ok fun s => ⟨a, s, rfl, Keeps.refl s⟩
  fault := exits_fail
  event _ := exits_of_ok fun _ => ⟨(), _, rfl, rfl, rfl⟩
  state := exits_of_ok fun s => ⟨s, s, rfl, Keeps.refl s⟩
  request := exits_request c
  andThen := .bind
  frame := .inFrame
  template := .inTemplate
  more := .more

theorem exits_resolve (c : Compiler) (name : String) (position : Position) : Exits 0 (c.resolve name position) :=
  (exits_compositional c).resolve name position

theorem exits_loadTemplate (c : Compiler) (name : String) (position : Position) :
    Exits 0 (c.loadTemplate name position) :=
  (exits_compositional c).loadTemplate name position

/-- Statements, a section, the body behind a border, a source and an inclusion, however they end and wherever an
error comes from: the scope and the stack of templates are afterwards as they were before. -/
theorem everything_put_back (c : Compiler) (levels : Nat) (overrides : Overrides) (s : CompileState) :
    (∀ nodes stmts, Keeps s (stateAfter (emitAll (c.emitter levels) overrides nodes stmts s))) ∧
      (∀ name inverted body position,
        Keeps s (stateAfter (c.emitSection (c.deeper levels) overrides name inverted body position s))) ∧
      (∀ nodes body position,
        Keeps s (stateAfter (c.emitEnclosed (c.deeper levels) overrides nodes body position s))) ∧
      (∀ source indent, Keeps s (stateAfter (emitSource (c.emitter levels) overrides source indent s))) ∧
      ∀ name indent position,
        Keeps s (stateAfter (c.emitInclusion (c.deeper levels) overrides name indent position s)) := by
  have kept := exits_compositional c
  have here := kept.emitter levels
  have below := kept.deeper levels
  refine ⟨?_, ?_, ?_, ?_, ?_⟩
  · intro nodes stmts
    exact (kept.emitAll here overrides nodes stmts s).1
  · intro name inverted body position
    exact (kept.emitSection below name inverted body s).1
  · intro nodes body position
    exact (kept.emitEnclosed below body s).1
  · intro source indent
    exact (kept.emitSource here overrides source indent s).1
  · intro name indent position
    exact (kept.emitInclusion below name indent s).1

/-- What an inclusion does, one thing after another. -/
theorem emitInclusion_eq (c : Compiler) (deeper : Option Emitter) (overrides : Overrides) (name indent : String)
    (position : Position) (s : CompileState) :
    c.emitInclusion deeper overrides name indent position s =
      match s.stack.push? name (some position) with
      | .error e => .error e s
      | .ok stack => takenBack dropTemplate <|
        match deeper with
        | none => .error (stack.error (.tooDeep c.settings.maxDepth position)) { s with stack }
        | some emit =>
          match c.loadTemplate name position { s with stack } with
          | .error e t => .error e t
          | .ok source t => takenBack dropFrame <| emitSource emit overrides source indent
            { t with scope := t.scope.push .boundary, events := t.events ++ [.including name t.stack.size] } := by
  unfold emitInclusion inTemplate
  cases s.stack.push? name (some position) with
  | error e => rfl
  | ok stack =>
    cases deeper with
    | none => rfl
    | some emit =>
      simp only [enter, bind, EStateM.bind, pure, EStateM.pure]
      cases c.loadTemplate name position { s with stack } <;> rfl

/-! ## Errors -/

variable {c : Compiler} {source name : String} {e : CompileError} {s : CompileState}

/-- An error of a compilation is met below the entry template. -/
theorem below_of_compile (failed : c.compile source name = .error e s) : e.Below [name] (c.settings.maxDepth + 1) := by
  have emitted := (exits_compositional c).emitSource ((exits_compositional c).emitter c.settings.maxDepth) [] source ""
  rcases bind_error_iff.mp failed with inside | ⟨nodes, u, _, reported⟩
  · have first : name ∉ c.start.stack.chain := List.not_mem_nil
    rw [inTemplate_eq, if_neg first] at inside
    obtain ⟨u, inner, _⟩ := takenBack_eq_error.mp inside
    exact emitted.below inner (List.nodup_singleton name)
  · rcases bind_error_iff.mp reported with failed | ⟨_, _, _, failed⟩ <;> cases failed

/-- The chain of an error begins with the entry template, and has at most two names more than bodies may be open
inside each other. If a template includes itself, it is the last of the chain and once before, and the chain
before it has no name twice; for every other fault the whole chain has none. -/
theorem chain_of_error (failed : c.compile source name = .error e s) :
    e.chain.head? = some name ∧ e.chain.length ≤ c.settings.maxDepth + 2 ∧
      (∀ again, e.fault = .circularTemplate again →
        ∃ before, e.chain = before ++ [again] ∧ before.count again = 1 ∧ before.Nodup) ∧
      ((∀ again, e.fault ≠ .circularTemplate again) → e.chain.Nodup) := by
  obtain ⟨sound, names, chain, few⟩ := below_of_compile failed
  refine ⟨?_, ?_, ?_, ?_⟩
  · simp [chain]
  · simp only [chain, List.length_append, List.length_singleton]
    omega
  · intro again same
    simpa [CompileError.SoundChain, same] using sound
  · intro other
    unfold CompileError.SoundChain at sound
    split at sound
    · next again same => exact absurd same (other again)
    · exact sound

/-- Two templates that include each other, the one registered and the other loaded. -/
def ringCompiler : Compiler where
  loader := .ofDictionary [("b", "on " ++ tagText ">a")]
  partials := [("a", .inline (tagText "<b" ++ tagText "/b"))]

def ringSource : String := tagText "#list" ++ tagText ">a" ++ tagText "/list"

def ringError : CompileError := ⟨.circularTemplate "a", ["root", "a", "b", "a"]⟩

def error? : EStateM.Result CompileError CompileState Program → Option CompileError
  | .ok _ _ => none
  | .error e _ => some e

theorem exists_of_error? {result : EStateM.Result CompileError CompileState Program} {e : CompileError}
    (done : error? result = some e) : ∃ s, result = .error e s := by
  cases result with
  | ok p s => cases done
  | error e' s =>
    obtain rfl : e' = e := Option.some.inj done
    exact ⟨s, rfl⟩

theorem ring_fails : ∃ s, ringCompiler.compile ringSource "root" = .error ringError s :=
  exists_of_error? (by cbv)

/-- The ring is named from its beginning on, and once more where it closes. -/
theorem ring_named : ∃ s, ringCompiler.compile ringSource "root" = .error ringError s ∧
    ringError.chain.head? = some "root" ∧ ringError.chain.length ≤ ringCompiler.settings.maxDepth + 2 ∧
      ∃ before, ringError.chain = before ++ ["a"] ∧ before.count "a" = 1 ∧ before.Nodup := by
  obtain ⟨s, failed⟩ := ring_fails
  obtain ⟨entry, few, circular, _⟩ := chain_of_error failed
  exact ⟨s, failed, entry, few, circular "a" rfl⟩

end Compiler
end Mustache

import Mustache.Proofs.Exits

/-!
# How compiling fails

The errors of statements as a relation without state, the counterpart of what they emit: in a scope, below some
templates, with some overrides and so many levels left, statements fail with an error (`Fails`). The statements
before the faulty one have emitted what they emit, and the error lies in it or in what it opens. A run of the
compiler fails exactly where the relation holds (`Compiler.fails_of_error`, `Compiler.error_of_fails`).
-/

namespace Mustache
open Text

namespace Compiler

variable (c : Compiler)

/-! ## What a statement asks for and opens -/

/-- A statement for which a name has to refer to something. -/
inductive Asks : Statement → String → Position → Prop where
  | interpolation {name escape position} : Asks (.interpolation name escape position) name position
  | sect {name inverted body position} (plain : (!inverted && c.lambdas.contains name) = false) :
    Asks (.sect name inverted body position) name position

/-- A statement with the body that it opens in a scope, the frame of that body, and the overrides in force there. -/
inductive Opens (scope : Scope) (overrides : Overrides) :
    Statement → Position → Frame → Overrides → List Statement → Prop where
  | lambda {name body position} (calls : c.lambdas.contains name = true) :
    Opens scope overrides (.sect name false body position) position .boundary overrides body
  | sect {name inverted body position r} (plain : (!inverted && c.lambdas.contains name) = false)
      (refers : c.resolution? scope name = some r) :
    Opens scope overrides (.sect name inverted body position) position (sectionKind inverted r).2 overrides body
  | replaced {name body position replacement} (found : Dictionary.find? name overrides = some replacement) :
    Opens scope overrides (.block name body position) position .boundary (Dictionary.erase name overrides) replacement
  | block {name body position} (own : Dictionary.find? name overrides = none) :
    Opens scope overrides (.block name body position) position .boundary overrides body

/-- A statement with the template that it includes, the indentation, and the overrides in force there. -/
inductive Includes (overrides : Overrides) : Statement → String → String → Position → Overrides → Prop where
  | inclusion {name indent position} : Includes overrides (.inclusion name indent position) name indent position []
  | parent {name body position} :
    Includes overrides (.parent name body position) name "" position
      (Dictionary.insertAll overrides (directBlocks body))

/-- What a path is refused for, if it is. -/
def pathFault? (path : String) (position : Position) : Option Fault :=
  let (file, fragment?) := splitFragment path
  if file = "" ∨ fragment? = some "" then some (.invalidReference path position)
  else
    match c.loader (c.settings.fullPath file), fragment? with
    | .error cause, _ => some (.load (c.settings.fullPath file) cause)
    | .ok _, none => none
    | .ok text, some fragment =>
      match Fragment.extract text fragment with
      | .ok (some _) => none
      | .ok none => some (.fragmentNotFound file fragment)
      | .error cause => some (.unreadable cause)

/-- What an included template is refused for, if it is. -/
def sourceFault? (name : String) (position : Position) : Option Fault :=
  match Dictionary.find? name c.partials with
  | some (.inline _) => none
  | some (.file path) => c.pathFault? path position
  | none => c.pathFault? name position

end Compiler

/-! ## The relation -/

open Compiler in
/-- Statements with the error that compiling them ends with. -/
inductive Fails (c : Compiler) : Nat → Scope → List String → Overrides → List Statement → CompileError → Prop where
  /-- The first statement does what it should, and one behind it does not. -/
  | later {levels scope chain overrides stmt rest met nodes e}
      (first : Emits c levels scope chain overrides [stmt] met nodes)
      (behind : Fails c levels scope chain overrides rest e) :
    Fails c levels scope chain overrides (stmt :: rest) e
  | unresolved {levels scope chain overrides stmt rest name position} (asks : c.Asks stmt name position)
      (unknown : c.resolution? scope name = none) :
    Fails c levels scope chain overrides (stmt :: rest) ⟨.unresolvedReference name position, chain⟩
  | tooDeep {scope chain overrides stmt rest position frame inner body}
      (opens : c.Opens scope overrides stmt position frame inner body) :
    Fails c 0 scope chain overrides (stmt :: rest) ⟨.tooDeep c.settings.maxDepth position, chain⟩
  | inside {levels scope chain overrides stmt rest position frame inner body e}
      (opens : c.Opens scope overrides stmt position frame inner body)
      (within : Fails c levels (scope.push frame) chain inner body e) :
    Fails c (levels + 1) scope chain overrides (stmt :: rest) e
  | circular {levels scope chain overrides stmt rest name indent position inner}
      (includes : Includes overrides stmt name indent position inner) (again : name ∈ chain) :
    Fails c levels scope chain overrides (stmt :: rest) ⟨.circularTemplate name, chain ++ [name]⟩
  | includedTooDeep {scope chain overrides stmt rest name indent position inner}
      (includes : Includes overrides stmt name indent position inner) (fresh : name ∉ chain) :
    Fails c 0 scope chain overrides (stmt :: rest) ⟨.tooDeep c.settings.maxDepth position, chain ++ [name]⟩
  | unloaded {levels scope chain overrides stmt rest name indent position inner fault}
      (includes : Includes overrides stmt name indent position inner) (fresh : name ∉ chain)
      (refused : c.sourceFault? name position = some fault) :
    Fails c (levels + 1) scope chain overrides (stmt :: rest) ⟨fault, chain ++ [name]⟩
  | unreadable {levels scope chain overrides stmt rest name indent position inner source fault}
      (includes : Includes overrides stmt name indent position inner) (fresh : name ∉ chain)
      (loaded : c.source? name = some source) (faulty : Statement.ofSource source indent = .error fault) :
    Fails c (levels + 1) scope chain overrides (stmt :: rest) ⟨fault, chain ++ [name]⟩
  | included {levels scope chain overrides stmt rest name indent position inner source stmts e}
      (includes : Includes overrides stmt name indent position inner) (fresh : name ∉ chain)
      (loaded : c.source? name = some source) (parsed : Statement.ofSource source indent = .ok stmts)
      (within : Fails c levels (scope.push .boundary) (chain ++ [name]) inner stmts e) :
    Fails c (levels + 1) scope chain overrides (stmt :: rest) e

namespace CompileM

section

variable {α β : Type} {s t : CompileState} {e : CompileError}

theorem map_error_iff {f : α → β} {m : CompileM α} : (f <$> m) s = .error e t ↔ m s = .error e t := by
  simp only [Functor.map, EStateM.map]
  cases m s <;> simp

theorem map_ok_iff {f : α → β} {m : CompileM α} {b : β} : (f <$> m) s = .ok b t ↔ ∃ a, m s = .ok a t ∧ f a = b := by
  simp only [Functor.map, EStateM.map]
  cases m s <;> simp [and_comm]

theorem inFrame_error_iff {frame : Frame} {m : CompileM α} :
    inFrame frame m s = .error e t ↔
      ∃ u, m { s with scope := s.scope.push frame } = .error e u ∧ dropFrame u = t := by
  rw [inFrame_eq, takenBack_eq_error]

end

end CompileM

namespace Compiler
open CompileM

section

variable {c : Compiler} {levels : Nat} {overrides inner : Overrides} {stmt : Statement} {stmts rest body : List Statement}
  {scope : Scope} {chain : List String} {before out : List Node} {s t u : CompileState} {position : Position}
  {frame : Frame} {name path indent source : String} {e : CompileError} {fault : Fault}

theorem loadPath_error_iff : (∃ t, c.loadPath path position s = .error e t) ↔
    ∃ fault, c.pathFault? path position = some fault ∧ s.stack.error fault = e := by
  unfold loadPath pathFault?
  obtain ⟨file, fragment?⟩ := splitFragment path
  by_cases invalid : file = "" ∨ fragment? = some ""
  · simp [invalid, bind, EStateM.bind, fail]
  · simp only [invalid, if_false, bind, EStateM.bind, pure, request]
    cases c.loader (c.settings.fullPath file) with
    | error cause => simp
    | ok text =>
      cases fragment? with
      | none => simp [EStateM.pure]
      | some fragment =>
        cases cut : Fragment.extract text fragment with
        | error cause => simp [cut, fail]
        | ok found => cases found <;> simp [cut, fail, EStateM.pure]

theorem loadTemplate_error_iff : (∃ t, c.loadTemplate name position s = .error e t) ↔
    ∃ fault, c.sourceFault? name position = some fault ∧ s.stack.error fault = e := by
  unfold loadTemplate sourceFault?
  rcases Dictionary.find? name c.partials with - | (text | path)
  · exact loadPath_error_iff
  · simp [pure, EStateM.pure]
  · exact loadPath_error_iff

theorem resolve_error (unknown : c.resolution? s.scope name = none) (position : Position) :
    c.resolve name position s = .error (s.stack.error (.unresolvedReference name position)) s := by
  revert unknown
  simp only [resolution?, resolve, bind, EStateM.bind, get, getThe, MonadStateOf.get, EStateM.get]
  cases s.scope.resolve name with
  | some r =>
    intro unknown
    cases unknown
  | none =>
    cases c.settings.unresolved with
    | blank =>
      intro unknown
      cases unknown
    | fail => exact fun _ => rfl

/-- A statement is done at once, or asks for a name that refers to nothing, or opens a body, or includes a template. -/
theorem emitStatement_cases (c : Compiler) (overrides : Overrides) (stmt : Statement) (s : CompileState) :
    (∀ deeper before, ∃ out t, c.emitStatement deeper overrides before stmt s = .ok out t) ∨
      (∃ name position, c.Asks stmt name position ∧ c.resolution? s.scope name = none) ∨
      (∃ position frame inner body, c.Opens s.scope overrides stmt position frame inner body) ∨
      ∃ name indent position inner, Includes overrides stmt name indent position inner := by
  cases stmt with
  | text content => exact .inl fun _ _ => ⟨_, s, rfl⟩
  | interpolation name escape position =>
    cases refers : c.resolution? s.scope name with
    | none => exact .inr (.inl ⟨name, position, .interpolation, refers⟩)
    | some r =>
      obtain ⟨t, resolved, _⟩ := resolve_ok refers position
      exact .inl fun _ _ => ⟨_, t, bind_ok_iff.mpr ⟨r, t, resolved, rfl⟩⟩
  | sect name inverted body position =>
    cases calls : !inverted && c.lambdas.contains name with
    | true =>
      obtain ⟨rfl, listed⟩ : inverted = false ∧ c.lambdas.contains name = true := by simpa using calls
      exact .inr (.inr (.inl ⟨_, _, _, _, .lambda listed⟩))
    | false =>
      cases refers : c.resolution? s.scope name with
      | none => exact .inr (.inl ⟨name, position, .sect calls, refers⟩)
      | some r => exact .inr (.inr (.inl ⟨_, _, _, _, .sect calls refers⟩))
  | inclusion name indent position => exact .inr (.inr (.inr ⟨_, _, _, _, .inclusion⟩))
  | parent name body position => exact .inr (.inr (.inr ⟨_, _, _, _, .parent⟩))
  | block name body position =>
    cases found : Dictionary.find? name overrides with
    | some replacement => exact .inr (.inr (.inl ⟨_, _, _, _, .replaced found⟩))
    | none => exact .inr (.inr (.inl ⟨_, _, _, _, .block found⟩))

theorem emitStatement_of_asks (asks : c.Asks stmt name position) (unknown : c.resolution? s.scope name = none)
    (deeper : Option Emitter) (before : List Node) :
    c.emitStatement deeper overrides before stmt s = .error (s.stack.error (.unresolvedReference name position)) s := by
  have refused := resolve_error unknown position
  cases asks with
  | interpolation => exact bind_error_iff.mpr (.inl refused)
  | sect plain =>
    simp only [emitStatement, plain, Bool.false_eq_true, if_false]
    exact bind_error_iff.mpr (.inl (bind_error_iff.mpr (.inl refused)))

/-- A statement that opens a body goes one level deeper, behind the frame of the body. -/
theorem emitStatement_of_opens (opens : c.Opens s.scope overrides stmt position frame inner body) (before : List Node) :
    ∃ u first last, Keeps s u ∧ ∀ deeper, c.emitStatement deeper overrides before stmt s =
      (c.enter deeper position >>= fun emit => last <$> inFrame frame (emitAll emit inner first body)) u := by
  cases opens with
  | @lambda name _ _ calls =>
    refine ⟨s, [], fun out => Node.push before (.lambda name out.reverse), Keeps.refl s, fun deeper => ?_⟩
    simp only [emitStatement, calls, Bool.not_false, Bool.and_true, if_true, emitEnclosed]
    cases deeper <;> rfl
  | @sect name inverted _ _ r plain refers =>
    obtain ⟨u, resolved, meets⟩ := resolve_ok refers position
    refine ⟨u, [], fun out => Node.push before (.sect r.lookup (sectionKind inverted r).1 out.reverse), meets.keeps,
      fun deeper => ?_⟩
    simp only [emitStatement, plain, Bool.false_eq_true, if_false, emitSection, bind, EStateM.bind, resolved]
    cases c.enter deeper position u with
    | error e t => rfl
    | ok emit t =>
      dsimp only [Functor.map, EStateM.map]
      cases inFrame (sectionKind inverted r).2 (emitAll emit overrides [] body) t <;> rfl
  | replaced found =>
    refine ⟨s, before, id, Keeps.refl s, fun deeper => ?_⟩
    simp only [emitStatement, found, emitEnclosed, id_map]
  | block own =>
    refine ⟨s, before, id, Keeps.refl s, fun deeper => ?_⟩
    simp only [emitStatement, own, emitEnclosed, id_map]

theorem emitStatement_of_includes (includes : Includes overrides stmt name indent position inner)
    (deeper : Option Emitter) (before : List Node) :
    c.emitStatement deeper overrides before stmt =
      (fun out => out.reverse.foldl Node.push before) <$> c.emitInclusion deeper inner name indent position := by
  cases includes <;> rfl

theorem emitSource_error_iff {emit : Emitter} :
    emitSource emit overrides source indent s = .error e t ↔
      (∃ fault, Statement.ofSource source indent = .error fault ∧ e = s.stack.error fault ∧ s = t) ∨
        ∃ stmts, Statement.ofSource source indent = .ok stmts ∧ emitAll emit overrides [] stmts s = .error e t := by
  cases parsed : Statement.ofSource source indent <;> simp [emitSource, parsed, fail, eq_comm]

theorem emitAll_cons_error_iff {emit : Emitter} :
    emitAll emit overrides before (stmt :: rest) s = .error e t ↔ emit overrides before stmt s = .error e t ∨
      ∃ mid u, emit overrides before stmt s = .ok mid u ∧ emitAll emit overrides mid rest u = .error e t := by
  simp only [emitAll, List.foldlM_cons, bind_error_iff]

end

/-! ## From runs to the relation -/

section

variable {c : Compiler} {levels : Nat} {overrides inner : Overrides} {stmt : Statement} {stmts rest body : List Statement}
  {scope : Scope} {chain : List String} {before out : List Node} {s t : CompileState} {position : Position}
  {frame : Frame} {name indent source : String} {e : CompileError}

/-- The runs of one level: they fail as the relation says. -/
def FailsRightly (c : Compiler) (levels : Nat) : Prop :=
  ∀ {overrides stmts before s e t}, emitAll (c.emitter levels) overrides before stmts s = .error e t →
    Fails c levels s.scope s.stack.chain overrides stmts e

theorem fails_of_opens (rightly : ∀ lower, levels = lower + 1 → FailsRightly c lower)
    (opens : c.Opens s.scope overrides stmt position frame inner body)
    (failed : c.emitStatement (c.deeper levels) overrides before stmt s = .error e t) (rest : List Statement) :
    Fails c levels s.scope s.stack.chain overrides (stmt :: rest) e := by
  obtain ⟨u, first, last, keeps, same⟩ := emitStatement_of_opens opens before
  rw [same] at failed
  cases levels with
  | zero =>
    cases failed
    rw [keeps.2]
    exact .tooDeep opens
  | succ lower =>
    obtain ⟨v, within, _⟩ := inFrame_error_iff.mp (map_error_iff.mp failed)
    have met := rightly lower rfl within
    rw [keeps.1, keeps.2] at met
    exact .inside opens met

theorem fails_of_includes (rightly : ∀ lower, levels = lower + 1 → FailsRightly c lower)
    (includes : Includes overrides stmt name indent position inner)
    (failed : c.emitStatement (c.deeper levels) overrides before stmt s = .error e t) (rest : List Statement) :
    Fails c levels s.scope s.stack.chain overrides (stmt :: rest) e := by
  rw [emitStatement_of_includes includes, map_error_iff, emitInclusion_eq, push?_eq] at failed
  by_cases again : name ∈ s.stack.chain
  · rw [if_pos again] at failed
    cases failed
    exact .circular includes again
  · rw [if_neg again] at failed
    obtain ⟨u, failed, _⟩ := takenBack_eq_error.mp failed
    cases levels with
    | zero =>
      cases failed
      rw [TemplateStack.error, chain_push]
      exact .includedTooDeep includes again
    | succ lower =>
      simp only [deeper] at failed
      have spec := loadTemplate_spec c name position (Compiler.inside s name position)
      cases ran : c.loadTemplate name position (Compiler.inside s name position) with
      | error e' v =>
        rw [Compiler.inside] at ran
        rw [ran] at failed
        cases failed
        obtain ⟨fault, refused, rfl⟩ := loadTemplate_error_iff.mp ⟨_, ran⟩
        rw [TemplateStack.error, chain_push]
        exact .unloaded includes again refused
      | ok source v =>
        rw [ran] at spec
        obtain ⟨loaded, keeps, _⟩ := spec
        have chained : v.stack.chain = s.stack.chain ++ [name] := by rw [keeps.2, Compiler.inside, chain_push]
        rw [Compiler.inside] at ran
        rw [ran] at failed
        obtain ⟨w, failed, _⟩ := takenBack_eq_error.mp failed
        rcases emitSource_error_iff.mp failed with ⟨fault, faulty, rfl, _⟩ | ⟨stmts, parsed, failed⟩
        · rw [TemplateStack.error, chained]
          exact .unreadable includes again loaded faulty
        · have met := rightly lower rfl failed
          simp only [chained, keeps.1] at met
          exact .included includes again loaded parsed met

theorem failsOne_of_error (rightly : ∀ lower, levels = lower + 1 → FailsRightly c lower)
    (failed : c.emitStatement (c.deeper levels) overrides before stmt s = .error e t) (rest : List Statement) :
    Fails c levels s.scope s.stack.chain overrides (stmt :: rest) e := by
  rcases emitStatement_cases c overrides stmt s with done | ⟨name, position, asks, unknown⟩ |
    ⟨position, frame, inner, body, opens⟩ | ⟨name, indent, position, inner, includes⟩
  · obtain ⟨out, t, ran⟩ := done (c.deeper levels) before
    cases ran.symm.trans failed
  · rw [emitStatement_of_asks asks unknown] at failed
    cases failed
    exact .unresolved asks unknown
  · exact fails_of_opens rightly opens failed rest
  · exact fails_of_includes rightly includes failed rest

/-- A run that fails does so as the relation says. -/
theorem fails_of_error (c : Compiler) (levels : Nat) : FailsRightly c levels := by
  -- What a statement opens runs one level deeper, so the outer induction is on the levels.
  induction levels using Nat.strongRecOn with
  | ind levels ih =>
    have rightly : ∀ lower, levels = lower + 1 → FailsRightly c lower := fun lower same => ih lower (by omega)
    intro overrides stmts before s e t failed
    induction stmts generalizing before s with
    | nil => cases failed
    | cons stmt rest after =>
      rw [emitAll_cons_error_iff, emitter_eq] at failed
      rcases failed with here | ⟨mid, u, ran, behind⟩
      · exact failsOne_of_error rightly here rest
      · obtain ⟨met, nodes, extend, _, meets⟩ := didOne_of_ok (fun lower _ => emits_of_ok c lower) ran
        have later := after (emitter_eq c levels ▸ behind)
        rw [meets.keeps.1, meets.keeps.2] at later
        exact .later (extend [] [] [] .nil) later

end

/-! ## From the relation to runs -/

section

variable {c : Compiler} {levels : Nat} {overrides inner : Overrides} {stmt : Statement} {stmts rest body : List Statement}
  {scope : Scope} {chain : List String} {position : Position} {frame : Frame} {name indent source : String}
  {e : CompileError} {fault : Fault}

/-- Every run from a state at the given place fails, with the given error. -/
def RunsInto (c : Compiler) (levels : Nat) (scope : Scope) (chain : List String) (overrides : Overrides)
    (stmts : List Statement) (e : CompileError) : Prop :=
  ∀ (before : List Node) (s : CompileState), s.scope = scope → s.stack.chain = chain →
    ∃ t, emitAll (c.emitter levels) overrides before stmts s = .error e t

/-- Every run of a statement from a state at the given place fails, with the given error. -/
def RunsOneInto (c : Compiler) (levels : Nat) (scope : Scope) (chain : List String) (overrides : Overrides)
    (stmt : Statement) (e : CompileError) : Prop :=
  ∀ (before : List Node) (s : CompileState), s.scope = scope → s.stack.chain = chain →
    ∃ t, c.emitStatement (c.deeper levels) overrides before stmt s = .error e t

theorem RunsOneInto.first (one : RunsOneInto c levels scope chain overrides stmt e) (rest : List Statement) :
    RunsInto c levels scope chain overrides (stmt :: rest) e := by
  intro before s inScope below
  obtain ⟨t, failed⟩ := one before s inScope below
  refine ⟨t, emitAll_cons_error_iff.mpr (.inl ?_)⟩
  rwa [emitter_eq]

/-- A fault in a template that is loaded. -/
theorem runsOneInto_of_loaded (includes : Includes overrides stmt name indent position inner) (fresh : name ∉ chain)
    (loaded : c.source? name = some source)
    (within : ∀ s, s.scope = scope.push .boundary → s.stack.chain = chain ++ [name] → ∃ t,
      emitSource (c.emitter levels) inner source indent s = .error e t) :
    RunsOneInto c (levels + 1) scope chain overrides stmt e := by
  intro before s inScope below
  subst inScope below
  obtain ⟨u, ran, keeps, _⟩ := loadTemplate_ok loaded position (Compiler.inside s name position)
  have chained : u.stack.chain = s.stack.chain ++ [name] := by rw [keeps.2, Compiler.inside, chain_push]
  obtain ⟨t, failed⟩ := within { u with
    scope := u.scope.push .boundary
    events := u.events ++ [.including name u.stack.size] } (by rw [keeps.1, Compiler.inside]) chained
  refine ⟨dropTemplate (dropFrame t), ?_⟩
  rw [Compiler.inside] at ran
  rw [emitStatement_of_includes includes, map_error_iff, emitInclusion_eq, push?_eq, if_neg fresh]
  simp only [deeper, ran, failed, takenBack]

/-- The relation promises runs that fail. -/
theorem error_of_fails (fails : Fails c levels scope chain overrides stmts e) :
    RunsInto c levels scope chain overrides stmts e := by
  induction fails with
  | later first _ behind =>
    intro before s inScope below
    obtain ⟨u, ran, meets⟩ := ok_of_emits first before s inScope below
    obtain ⟨t, failed⟩ := behind _ u (meets.keeps.1.trans inScope) (by rw [meets.keeps.2, below])
    obtain ⟨mid, v, one, nothing⟩ := emitAll_cons_ok_iff.mp ran
    obtain ⟨rfl, rfl⟩ := pure_ok_iff.mp nothing
    exact ⟨t, emitAll_cons_error_iff.mpr (.inr ⟨_, _, one, failed⟩)⟩
  | unresolved asks unknown =>
    refine RunsOneInto.first (fun before s inScope below => ?_) _
    subst inScope below
    exact ⟨s, emitStatement_of_asks asks unknown _ before⟩
  | tooDeep opens =>
    refine RunsOneInto.first (fun before s inScope below => ?_) _
    subst inScope below
    obtain ⟨u, first, last, keeps, same⟩ := emitStatement_of_opens opens before
    rw [same, ← keeps.2]
    exact ⟨u, rfl⟩
  | inside opens _ within =>
    refine RunsOneInto.first (fun before s inScope below => ?_) _
    subst inScope below
    obtain ⟨u, first, last, keeps, same⟩ := emitStatement_of_opens opens before
    obtain ⟨t, failed⟩ := within first { u with scope := u.scope.push _ } (by rw [keeps.1]) (by rw [keeps.2])
    rw [same]
    exact ⟨dropFrame t, map_error_iff.mpr (inFrame_error_iff.mpr ⟨t, failed, rfl⟩)⟩
  | circular includes again =>
    refine RunsOneInto.first (fun before s inScope below => ?_) _
    subst below
    refine ⟨s, ?_⟩
    rw [emitStatement_of_includes includes, map_error_iff, emitInclusion_eq, push?_eq, if_pos again]
  | includedTooDeep includes fresh =>
    refine RunsOneInto.first (fun before s inScope below => ?_) _
    subst below
    refine ⟨s, ?_⟩
    rw [emitStatement_of_includes includes, map_error_iff, emitInclusion_eq, push?_eq, if_neg fresh, ← chain_push]
    rfl
  | @unloaded _ _ _ _ _ _ name _ position _ _ includes fresh refused =>
    refine RunsOneInto.first (fun before s inScope below => ?_) _
    subst below
    obtain ⟨t, failed⟩ := loadTemplate_error_iff (s := Compiler.inside s name position).mpr ⟨_, refused, rfl⟩
    refine ⟨dropTemplate t, ?_⟩
    rw [TemplateStack.error, Compiler.inside, chain_push] at failed
    rw [emitStatement_of_includes includes, map_error_iff, emitInclusion_eq, push?_eq, if_neg fresh]
    simp only [deeper, failed, takenBack]
  | unreadable includes fresh loaded faulty =>
    refine RunsOneInto.first (runsOneInto_of_loaded includes fresh loaded fun s _ below => ?_) _
    rw [← below]
    exact ⟨s, emitSource_error_iff.mpr (.inl ⟨_, faulty, rfl, rfl⟩)⟩
  | included includes fresh loaded parsed _ within =>
    refine RunsOneInto.first (runsOneInto_of_loaded includes fresh loaded fun s inScope below => ?_) _
    obtain ⟨t, failed⟩ := within [] s inScope below
    exact ⟨t, emitSource_error_iff.mpr (.inr ⟨_, parsed, failed⟩)⟩

end

/-- A compilation fails with an error: its text is refused, or cannot be read, or its statements fail. -/
inductive FailsAt (c : Compiler) : Entry → CompileError → Prop where
  | refused {path fault} (refused : c.pathFault? path {} = some fault) : FailsAt c (.path path) ⟨fault, []⟩
  | unreadable {entry source fault} (found : c.entrySource? entry = some source)
      (faulty : Statement.ofSource source "" = .error fault) : FailsAt c entry ⟨fault, [entry.name]⟩
  | within {entry source stmts e} (found : c.entrySource? entry = some source)
      (parsed : Statement.ofSource source "" = .ok stmts)
      (fails : Fails c c.settings.maxDepth { model := c.schema } [entry.name] [] stmts e) : FailsAt c entry e

section

variable {c : Compiler} {entry : Entry} {source name : String} {e : CompileError} {s t : CompileState}

/-- A source fails in its text or in its statements, below its own name. -/
theorem compileSource_error_iff (scope : s.scope = { model := c.schema }) (stack : s.stack = {}) :
    (∃ t, c.compileSource source name s = .error e t) ↔
      (∃ fault, Statement.ofSource source "" = .error fault ∧ e = ⟨fault, [name]⟩) ∨
        ∃ stmts, Statement.ofSource source "" = .ok stmts ∧
          Fails c c.settings.maxDepth { model := c.schema } [name] [] stmts e := by
  have first : name ∉ s.stack.chain := by simp [stack, TemplateStack.chain]
  have chain : TemplateStack.chain ⟨⟨name, none⟩ :: s.stack.frames⟩ = [name] := by simp [stack, TemplateStack.chain]
  have here : (∃ t, c.compileSource source name s = .error e t) ↔
      ∃ t, emitSource (c.emitter c.settings.maxDepth) [] source "" { s with stack := ⟨⟨name, none⟩ :: s.stack.frames⟩ } =
        .error e t := by
    constructor
    · rintro ⟨t, failed⟩
      rcases bind_error_iff.mp failed with inside | ⟨nodes, u, _, reported⟩
      · rw [inTemplate_eq, if_neg first] at inside
        obtain ⟨u, inner, _⟩ := takenBack_eq_error.mp inside
        exact ⟨u, inner⟩
      · rcases bind_error_iff.mp reported with failed | ⟨_, _, _, failed⟩ <;> cases failed
    · rintro ⟨t, inner⟩
      refine ⟨dropTemplate t, bind_error_iff.mpr (.inl ?_)⟩
      rw [inTemplate_eq, if_neg first]
      exact takenBack_eq_error.mpr ⟨t, inner, rfl⟩
  rw [here]
  constructor
  · rintro ⟨t, failed⟩
    rcases emitSource_error_iff.mp failed with ⟨fault, faulty, rfl, _⟩ | ⟨stmts, parsed, failed⟩
    · exact .inl ⟨fault, faulty, by rw [TemplateStack.error, chain]⟩
    · have fails := fails_of_error c _ failed
      rw [scope, chain] at fails
      exact .inr ⟨stmts, parsed, fails⟩
  · rintro (⟨fault, faulty, rfl⟩ | ⟨stmts, parsed, fails⟩)
    · exact ⟨_, emitSource_error_iff.mpr (.inl ⟨fault, faulty, by rw [TemplateStack.error, chain], rfl⟩)⟩
    · obtain ⟨t, failed⟩ := error_of_fails fails [] { s with stack := ⟨⟨name, none⟩ :: s.stack.frames⟩ } scope chain
      exact ⟨t, emitSource_error_iff.mpr (.inr ⟨stmts, parsed, failed⟩)⟩

/-- A compilation fails as the relation says, and only so. -/
theorem failsAt_iff : FailsAt c entry e ↔ ∃ t, c.compileEntry entry = .error e t := by
  cases entry with
  | source text name =>
    have whole : (∃ t, c.compileEntry (.source text name) = .error e t) ↔ _ :=
      compileSource_error_iff (s := c.start) rfl rfl
    rw [whole]
    constructor
    · rintro (_ | ⟨found, faulty⟩ | ⟨found, parsed, fails⟩)
      · cases found
        exact .inl ⟨_, faulty, rfl⟩
      · cases found
        exact .inr ⟨_, parsed, fails⟩
    · rintro (⟨fault, faulty, rfl⟩ | ⟨stmts, parsed, fails⟩)
      · exact .unreadable rfl faulty
      · exact .within rfl parsed fails
  | path path =>
    constructor
    · rintro (⟨refused⟩ | ⟨found, faulty⟩ | ⟨found, parsed, fails⟩)
      · obtain ⟨t, failed⟩ := loadPath_error_iff.mpr ⟨_, refused, rfl⟩
        exact ⟨t, bind_error_iff.mpr (.inl failed)⟩
      · obtain ⟨u, ran, keeps, _⟩ := loadPath_ok found {} c.start
        obtain ⟨t, failed⟩ := (compileSource_error_iff keeps.1 keeps.2).mpr (.inl ⟨_, faulty, rfl⟩)
        exact ⟨t, bind_error_iff.mpr (.inr ⟨_, u, ran, failed⟩)⟩
      · obtain ⟨u, ran, keeps, _⟩ := loadPath_ok found {} c.start
        obtain ⟨t, failed⟩ := (compileSource_error_iff keeps.1 keeps.2).mpr (.inr ⟨_, parsed, fails⟩)
        exact ⟨t, bind_error_iff.mpr (.inr ⟨_, u, ran, failed⟩)⟩
    · rintro ⟨t, failed⟩
      rcases bind_error_iff.mp failed with early | ⟨source, u, ran, failed⟩
      · obtain ⟨fault, refused, rfl⟩ := loadPath_error_iff.mp ⟨t, early⟩
        exact .refused refused
      · obtain ⟨found, keeps, _⟩ : c.pathSource? path = some source ∧ Keeps c.start u ∧ u.events = c.start.events := by
          simpa [ran] using loadPath_spec c path {} c.start
        rcases (compileSource_error_iff keeps.1 keeps.2).mp ⟨t, failed⟩ with ⟨fault, faulty, rfl⟩ | ⟨stmts, parsed, fails⟩
        · exact .unreadable found faulty
        · exact .within found parsed fails

end

end Compiler
end Mustache

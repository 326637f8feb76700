import Mathlib
import Mustache.Compiler
import Mustache.Proofs.Resolution

/-!
# Runs of the compiler

What a step of a compilation that succeeds did, one statement a step. The text of a template and what a
name refers to depend on the compiler and the scope alone (`source?`, `resolution?`); a step changes
neither the scope nor the stack of templates (`Keeps`).
-/

namespace Mustache
open Text

/-! ## Steps -/

/-- Two states are at the same place: in the same scope, below the same templates. -/
def Keeps (s t : CompileState) : Prop := t.scope = s.scope ∧ t.stack = s.stack

theorem Keeps.refl (s : CompileState) : Keeps s s := ⟨rfl, rfl⟩

theorem Keeps.trans {s t u : CompileState} (first : Keeps s t) (second : Keeps t u) : Keeps s u :=
  ⟨second.1.trans first.1, second.2.trans first.2⟩

/-- A template is put on the stack unless its name is in the chain. -/
theorem push?_eq (stack : TemplateStack) (name : String) (site : Option Position) :
    stack.push? name site =
      if name ∈ stack.chain then .error ⟨.circularTemplate name, stack.chain ++ [name]⟩
      else .ok ⟨⟨name, site⟩ :: stack.frames⟩ := by
  have known : stack.contains name = true ↔ name ∈ stack.chain := by
    simp [TemplateStack.contains, TemplateStack.chain]
  simp only [TemplateStack.push?, known]

/-- The names that some events report as resolved. -/
def resolvedNames (events : List Event) : List String :=
  events.filterMap fun
    | .resolved name _ => some name
    | _ => none

theorem resolvedNames_append (a b : List Event) : resolvedNames (a ++ b) = resolvedNames a ++ resolvedNames b :=
  List.filterMap_append

namespace CompileM

section

variable {α β : Type} {s t : CompileState}

theorem bind_ok_iff {step : CompileM α} {next : α → CompileM β} {b : β} :
    (step >>= next) s = .ok b t ↔ ∃ a u, step s = .ok a u ∧ next a u = .ok b t := by
  cases run : step s <;> simp [bind, EStateM.bind, run, and_assoc]

theorem bind_error_iff {step : CompileM α} {next : α → CompileM β} {e : CompileError} :
    (step >>= next) s = .error e t ↔ step s = .error e t ∨ ∃ a u, step s = .ok a u ∧ next a u = .error e t := by
  cases run : step s <;> simp [bind, EStateM.bind, run]

theorem pure_ok_iff {a b : α} : (pure a : CompileM α) s = .ok b t ↔ a = b ∧ s = t := by
  simp [pure, EStateM.pure]

theorem inFrame_ok_iff {frame : Frame} {inner : CompileM α} {a : α} :
    inFrame frame inner s = .ok a t ↔
      ∃ u, inner { s with scope := s.scope.push frame } = .ok a u ∧ dropFrame u = t := by
  cases run : inner { s with scope := s.scope.push frame } <;> simp [inFrame, run, and_assoc]

theorem inTemplate_ok_iff {name : String} {site : Option Position} {inner : CompileM α} {a : α} :
    inTemplate name site inner s = .ok a t ↔ name ∉ s.stack.chain ∧
      ∃ u, inner { s with stack := ⟨⟨name, site⟩ :: s.stack.frames⟩ } = .ok a u ∧ dropTemplate u = t := by
  rw [inTemplate, push?_eq]
  by_cases open_ : name ∈ s.stack.chain
  · simp [open_]
  · cases run : inner { s with stack := ⟨⟨name, site⟩ :: s.stack.frames⟩ } <;> simp [open_, run, and_assoc]

end

end CompileM

theorem chain_push (name : String) (site : Option Position) (stack : TemplateStack) :
    TemplateStack.chain ⟨⟨name, site⟩ :: stack.frames⟩ = stack.chain ++ [name] := by
  simp [TemplateStack.chain]

namespace Compiler
open CompileM

variable (c : Compiler)

/-! ## Texts and names -/

/-- The text at a path: a file, or a fragment of it. -/
def pathSource? (path : String) : Option String :=
  let (file, fragment?) := splitFragment path
  if file = "" ∨ fragment? = some "" then none
  else
    match c.loader (c.settings.fullPath file), fragment? with
    | .error _, _ => none
    | .ok text, none => some text
    | .ok text, some fragment =>
      match Fragment.extract text fragment with
      | .ok found => found
      | .error _ => none

/-- The text of a template that is included by a name. -/
def source? (name : String) : Option String :=
  match Dictionary.find? name c.partials with
  | some (.inline text) => some text
  | some (.file path) => c.pathSource? path
  | none => c.pathSource? name

/-- What a name refers to in a scope; a name that does not resolve may be let pass. -/
def resolution? (scope : Scope) (name : String) : Option Resolution :=
  match scope.resolve name, c.settings.unresolved with
  | some r, _ => some r
  | none, .blank => some ⟨.missing, .any⟩
  | none, .fail => none

/-- What a met name adds to the names that are reported: nothing if it was let pass. -/
def reportedName (met : String × Resolution) : List String := if met.2.lookup = .missing then [] else [met.1]

/-- From one state to another the place is the same, and what was met is reported. -/
structure Meets (met : List (String × Resolution)) (s t : CompileState) : Prop where
  keeps : Keeps s t
  names : resolvedNames t.events = resolvedNames s.events ++ met.flatMap reportedName

/-- The state in which the body of an included template is read. -/
def inside (s : CompileState) (name : String) (position : Position) : CompileState :=
  { s with stack := ⟨⟨name, some position⟩ :: s.stack.frames⟩ }

namespace Meets

variable {met later : List (String × Resolution)} {s t u v : CompileState}

theorem nil (s : CompileState) : Meets [] s s := ⟨Keeps.refl s, (List.append_nil _).symm⟩

theorem append (first : Meets met s u) (second : Meets later u t) : Meets (met ++ later) s t := by
  refine ⟨first.keeps.trans second.keeps, ?_⟩
  rw [second.names, first.names, List.flatMap_append, List.append_assoc]

theorem inFrame {frame : Frame} (within : Meets met { s with scope := s.scope.push frame } t) :
    Meets met s (dropFrame t) :=
  ⟨⟨by simp [dropFrame, within.keeps.1], within.keeps.2⟩, within.names⟩

theorem inTemplate {name : String} {position : Position} (loaded : Keeps (inside s name position) u)
    (silent : u.events = s.events)
    (within : Meets met { u with
      scope := u.scope.push .boundary
      events := u.events ++ [.including name u.stack.size] } v) :
    Meets met s (dropTemplate (dropFrame v)) := by
  obtain ⟨⟨scope, stack⟩, names⟩ := within
  refine ⟨⟨?_, ?_⟩, ?_⟩
  · simp [dropTemplate, dropFrame, scope, loaded.1, inside]
  · simp [dropTemplate, dropFrame, stack, loaded.2, inside, TemplateStack.pop]
  · simpa [dropTemplate, dropFrame, resolvedNames_append, silent, resolvedNames] using names

end Meets
end Compiler

theorem resolve_ne_missing {scope : Scope} {name : String} {r : Resolution} (resolved : scope.resolve name = some r) :
    r.lookup ≠ .missing := by
  rcases resolve_cases resolved with ⟨_, rfl⟩ | ⟨rest, _, _, _, lookup⟩ |
    ⟨first, rest, i, s, _, _, _, ⟨t, _, _, lookup⟩ | ⟨_, _, lookup⟩⟩
  · nofun
  all_goals simp [lookup]

namespace Compiler
open CompileM

variable {c : Compiler} {s t : CompileState}

theorem request_spec (c : Compiler) (path : String) (s : CompileState) :
    match c.request path s with
    | .ok text t => c.loader path = .ok text ∧ Keeps s t ∧ t.events = s.events
    | .error _ _ => ∃ e, c.loader path = .error e := by
  unfold request
  cases loaded : c.loader path with
  | ok text => exact ⟨rfl, ⟨rfl, rfl⟩, rfl⟩
  | error e => exact ⟨e, rfl⟩

theorem loadPath_spec (c : Compiler) (path : String) (position : Position) (s : CompileState) :
    match c.loadPath path position s with
    | .ok text t => c.pathSource? path = some text ∧ Keeps s t ∧ t.events = s.events
    | .error _ _ => c.pathSource? path = none := by
  unfold loadPath pathSource?
  obtain ⟨file, fragment?⟩ := splitFragment path
  by_cases invalid : file = "" ∨ fragment? = some ""
  · simp only [invalid, if_true, bind, EStateM.bind, fail]
  · have asked := request_spec c (c.settings.fullPath file) s
    simp only [invalid, if_false, bind, EStateM.bind, pure]
    cases run : c.request (c.settings.fullPath file) s with
    | error e t =>
      obtain ⟨cause, failed⟩ : ∃ cause, c.loader (c.settings.fullPath file) = .error cause := by simpa [run] using asked
      simp [failed]
    | ok text t =>
      obtain ⟨loaded, keeps, same⟩ : c.loader (c.settings.fullPath file) = .ok text ∧ Keeps s t ∧ t.events = s.events := by
        simpa [run] using asked
      cases fragment? with
      | none => simp [loaded, keeps, same, EStateM.pure]
      | some fragment =>
        cases cut : Fragment.extract text fragment with
        | error cause => simp [loaded, cut, fail]
        | ok found => cases found <;> simp [loaded, cut, fail, keeps, same, EStateM.pure]

theorem loadTemplate_spec (c : Compiler) (name : String) (position : Position) (s : CompileState) :
    match c.loadTemplate name position s with
    | .ok text t => c.source? name = some text ∧ Keeps s t ∧ t.events = s.events
    | .error _ _ => c.source? name = none := by
  unfold loadTemplate source?
  rcases Dictionary.find? name c.partials with - | (text | path)
  · exact loadPath_spec c name position s
  · exact ⟨rfl, Keeps.refl s, rfl⟩
  · exact loadPath_spec c path position s

theorem resolve_spec (c : Compiler) (name : String) (position : Position) (s : CompileState) :
    match c.resolve name position s with
    | .ok r t => c.resolution? s.scope name = some r ∧ Meets [(name, r)] s t
    | .error _ _ => c.resolution? s.scope name = none := by
  simp only [Compiler.resolve, resolution?, bind, EStateM.bind, get, getThe, MonadStateOf.get, EStateM.get]
  cases resolved : s.scope.resolve name with
  | some r =>
    have present := resolve_ne_missing resolved
    exact ⟨rfl, ⟨rfl, rfl⟩, by simp [resolvedNames, reportedName, present]⟩
  | none =>
    cases c.settings.unresolved with
    | fail => rfl
    | blank => exact ⟨rfl, Keeps.refl s, by simp [reportedName]⟩

theorem loadPath_ok {path source : String} (loaded : c.pathSource? path = some source) (position : Position)
    (s : CompileState) : ∃ t, c.loadPath path position s = .ok source t ∧ Keeps s t ∧ t.events = s.events := by
  have spec := loadPath_spec c path position s
  cases run : c.loadPath path position s with
  | ok text t =>
    obtain ⟨same, keeps, events⟩ : c.pathSource? path = some text ∧ Keeps s t ∧ t.events = s.events := by
      simpa [run] using spec
    obtain rfl : text = source := Option.some.inj (same.symm.trans loaded)
    exact ⟨t, rfl, keeps, events⟩
  | error e t => simp [run, loaded] at spec

theorem loadTemplate_ok {name source : String} (loaded : c.source? name = some source) (position : Position)
    (s : CompileState) :
    ∃ t, c.loadTemplate name position s = .ok source t ∧ Keeps s t ∧ t.events = s.events := by
  revert loaded
  unfold loadTemplate source?
  rcases Dictionary.find? name c.partials with - | (text | path) <;> intro loaded
  · exact loadPath_ok loaded position s
  · obtain rfl : text = source := Option.some.inj loaded
    exact ⟨s, rfl, Keeps.refl s, rfl⟩
  · exact loadPath_ok loaded position s

theorem resolve_ok {name : String} {r : Resolution} (refers : c.resolution? s.scope name = some r)
    (position : Position) :
    ∃ t, c.resolve name position s = .ok r t ∧ Meets [(name, r)] s t := by
  have spec := resolve_spec c name position s
  cases run : c.resolve name position s with
  | ok q t =>
    obtain ⟨same, meets⟩ : c.resolution? s.scope name = some q ∧ Meets [(name, q)] s t := by simpa [run] using spec
    obtain rfl : q = r := Option.some.inj (same.symm.trans refers)
    exact ⟨t, rfl, meets⟩
  | error e t => simp [run, refers] at spec

/-! ## Statements -/

theorem enter_ok_iff {deeper : Option Emitter} {position : Position} {emit : Emitter} :
    c.enter deeper position s = .ok emit t ↔ deeper = some emit ∧ s = t := by
  cases deeper <;> simp [enter, fail, pure, EStateM.pure]

theorem emitAll_cons_ok_iff {emit : Emitter} {overrides : Overrides} {nodes : List Node} {stmt : Statement}
    {rest : List Statement} {out : List Node} :
    emitAll emit overrides nodes (stmt :: rest) s = .ok out t ↔
      ∃ mid u, emit overrides nodes stmt s = .ok mid u ∧ emitAll emit overrides mid rest u = .ok out t := by
  simp only [emitAll, List.foldlM_cons, bind_ok_iff]

theorem emitEnclosed_ok_iff {deeper : Option Emitter} {overrides : Overrides} {nodes : List Node}
    {body : List Statement} {position : Position} {out : List Node} :
    c.emitEnclosed deeper overrides nodes body position s = .ok out t ↔
      ∃ emit u, deeper = some emit ∧
        emitAll emit overrides nodes body { s with scope := s.scope.push .boundary } = .ok out u ∧ dropFrame u = t := by
  simp only [emitEnclosed, bind_ok_iff, enter_ok_iff, inFrame_ok_iff]
  constructor
  · rintro ⟨emit, _, ⟨there, rfl⟩, u, run, last⟩
    exact ⟨emit, u, there, run, last⟩
  · rintro ⟨emit, u, there, run, last⟩
    exact ⟨emit, s, ⟨there, rfl⟩, u, run, last⟩

theorem emitSection_ok_iff {deeper : Option Emitter} {overrides : Overrides} {name : String} {inverted : Bool}
    {body : List Statement} {position : Position} {node : Node} :
    c.emitSection deeper overrides name inverted body position s = .ok node t ↔
      ∃ r u emit out v, c.resolve name position s = .ok r u ∧ deeper = some emit ∧
        emitAll emit overrides [] body { u with scope := u.scope.push (sectionKind inverted r).2 } = .ok out v ∧
        dropFrame v = t ∧ node = .sect r.lookup (sectionKind inverted r).1 out.reverse := by
  simp only [emitSection, bind_ok_iff, enter_ok_iff, inFrame_ok_iff, pure_ok_iff]
  constructor
  · rintro ⟨r, u, resolved, emit, _, ⟨there, rfl⟩, out, _, ⟨v, run, rfl⟩, rfl, rfl⟩
    exact ⟨r, u, emit, out, v, resolved, there, run, rfl, rfl⟩
  · rintro ⟨r, u, emit, out, v, resolved, there, run, rfl, rfl⟩
    exact ⟨r, u, resolved, emit, u, ⟨there, rfl⟩, out, dropFrame v, ⟨v, run, rfl⟩, rfl, rfl⟩

theorem emitSource_ok_iff {emit : Emitter} {overrides : Overrides} {source indent : String} {out : List Node} :
    emitSource emit overrides source indent s = .ok out t ↔
      ∃ stmts, Statement.ofSource source indent = .ok stmts ∧ emitAll emit overrides [] stmts s = .ok out t := by
  cases parsed : Statement.ofSource source indent <;> simp [emitSource, parsed, fail]

theorem emitInclusion_ok_iff {deeper : Option Emitter} {overrides : Overrides} {name indent : String}
    {position : Position} {out : List Node} :
    c.emitInclusion deeper overrides name indent position s = .ok out t ↔
      name ∉ s.stack.chain ∧ ∃ emit source stmts u v, deeper = some emit ∧
        c.loadTemplate name position (inside s name position) = .ok source u ∧
        Statement.ofSource source indent = .ok stmts ∧
        emitAll emit overrides [] stmts { u with
          scope := u.scope.push .boundary
          events := u.events ++ [.including name u.stack.size] } = .ok out v ∧
        dropTemplate (dropFrame v) = t := by
  simp only [emitInclusion, inTemplate_ok_iff, bind_ok_iff, enter_ok_iff, inFrame_ok_iff, emitSource_ok_iff]
  constructor
  · rintro ⟨fresh, _, ⟨emit, _, ⟨there, rfl⟩, source, u, loaded, _, _, got, rest⟩, rfl⟩
    obtain ⟨_, _, reported, v, ⟨stmts, parsed, run⟩, rfl⟩ := rest
    cases got
    cases reported
    exact ⟨fresh, emit, source, stmts, u, v, there, loaded, parsed, run, rfl⟩
  · rintro ⟨fresh, emit, source, stmts, u, v, there, loaded, parsed, run, rfl⟩
    exact ⟨fresh, dropFrame v, ⟨emit, _, ⟨there, rfl⟩, source, u, loaded, u, u, rfl, (), _, rfl, v,
      ⟨stmts, parsed, run⟩, rfl⟩, rfl⟩

end Compiler
end Mustache

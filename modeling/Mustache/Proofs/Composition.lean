import Mustache.Proofs.Emission
import Mustache.Proofs.Reading

/-!
# How a compilation is put together

A compilation is put together in few ways: values, faults, reports and requests, one thing after another, and
things done behind a frame or inside a template. A relation between what two compilers do that all of these keep
(`Compiler.Compositional`) holds of all that they do, by one induction on the levels that are left
(`Compiler.Compositional.emitter`). The two compilers differ at most in their loaders; a property of one compiler
is a relation in which the second does not matter.
-/

namespace Mustache
open Text

namespace Compiler
open CompileM

/-- The compiler with another loader. -/
def withLoader (c : Compiler) (l : Loader) : Compiler := { c with loader := l }

/-! ## Ways of putting together -/

/-- A relation between what is done with two loaders that is kept by all ways of putting a compilation together.
Its number may grow, and does so where a template is entered. -/
structure Compositional (c : Compiler) (l : Loader) (R : Nat → ∀ α : Type, CompileM α → CompileM α → Prop) : Prop where
  value {n : Nat} {α : Type} (a : α) : R n α (pure a) (pure a)
  /-- A template that includes itself is found where it is entered, and no fault of anything else. -/
  fault {n : Nat} {α : Type} {fault : Fault} (other : ∀ name, fault ≠ .circularTemplate name) :
    R n α (fail fault) (fail fault)
  event {n : Nat} (event : Event) : R n Unit (report event) (report event)
  state {n : Nat} : R n CompileState get get
  request {n : Nat} (path : String) : R n String (c.request path) ((c.withLoader l).request path)
  andThen {n : Nat} {α β : Type} {x y : CompileM α} {f g : α → CompileM β} (first : R n α x y)
    (second : ∀ a, R n β (f a) (g a)) : R n β (x >>= f) (y >>= g)
  frame {n : Nat} {α : Type} {x y : CompileM α} (inner : R n α x y) (frame : Frame) :
    R n α (inFrame frame x) (inFrame frame y)
  template {n : Nat} {α : Type} {x y : CompileM α} (inner : R n α x y) (name : String) (site : Option Position) :
    R (n + 1) α (inTemplate name site x) (inTemplate name site y)
  more {n : Nat} {α : Type} {x y : CompileM α} (holds : R n α x y) : R (n + 1) α x y

/-- Two emitters are related, whatever there is to emit. -/
def Related (R : Nat → ∀ α : Type, CompileM α → CompileM α → Prop) (n : Nat) (emit emit' : Emitter) : Prop :=
  ∀ overrides nodes stmt, R n (List Node) (emit overrides nodes stmt) (emit' overrides nodes stmt)

namespace Compositional

variable {c : Compiler} {l : Loader} {R : Nat → ∀ α : Type, CompileM α → CompileM α → Prop} {n : Nat}
  (kept : c.Compositional l R)

include kept

/-! ## Texts and names -/

theorem loadPath (path : String) (position : Position) :
    R n String (c.loadPath path position) ((c.withLoader l).loadPath path position) := by
  unfold Compiler.loadPath
  obtain ⟨file, fragment?⟩ := splitFragment path
  dsimp only
  split
  case' isTrue => refine kept.andThen (kept.fault nofun) fun _ => ?_
  all_goals
    refine kept.andThen (kept.request _) fun text => ?_
    split
    · exact kept.value text
    · split
      · exact kept.value _
      · exact kept.fault nofun
      · exact kept.fault nofun

theorem loadTemplate (name : String) (position : Position) :
    R n String (c.loadTemplate name position) ((c.withLoader l).loadTemplate name position) := by
  have partials : (c.withLoader l).partials = c.partials := rfl
  unfold Compiler.loadTemplate
  rw [partials]
  split
  · exact kept.value _
  · exact kept.loadPath _ position
  · exact kept.loadPath name position

theorem resolve (name : String) (position : Position) :
    R n Resolution (c.resolve name position) ((c.withLoader l).resolve name position) := by
  refine kept.andThen kept.state fun s => ?_
  split
  · exact kept.andThen (kept.event _) fun _ => kept.value _
  · have settings : (c.withLoader l).settings = c.settings := rfl
    rw [settings]
    split
    · exact kept.value _
    · exact kept.fault nofun

/-! ## Statements -/

section

variable {emit emit' : Emitter} {deeper deeper' : Option Emitter} {overrides : Overrides} {nodes : List Node}
  {position : Position}

theorem emitAll (related : Related R n emit emit') (overrides : Overrides) (nodes : List Node)
    (stmts : List Statement) :
    R n (List Node) (Compiler.emitAll emit overrides nodes stmts) (Compiler.emitAll emit' overrides nodes stmts) := by
  unfold Compiler.emitAll
  induction stmts generalizing nodes with
  | nil => exact kept.value nodes
  | cons stmt rest ih =>
    rw [List.foldlM_cons, List.foldlM_cons]
    exact kept.andThen (related overrides nodes stmt) ih

theorem emitSource (related : Related R n emit emit') (overrides : Overrides) (source indent : String) :
    R n (List Node) (Compiler.emitSource emit overrides source indent)
      (Compiler.emitSource emit' overrides source indent) := by
  unfold Compiler.emitSource
  cases parsed : Statement.ofSource source indent with
  | ok stmts => exact kept.emitAll related overrides [] stmts
  | error fault =>
    obtain ⟨p, placed⟩ := (ofSource_of_error parsed).position
    refine kept.fault ?_
    rintro name rfl
    cases placed

/-- What is done one level deeper, or the fault where no level is left. -/
theorem enter {α : Type} (below : Option.Rel (Related R n) deeper deeper') {f g : Emitter → CompileM α}
    (inner : ∀ emit emit', Related R n emit emit' → R n α (f emit) (g emit')) :
    R n α (c.enter deeper position >>= f) ((c.withLoader l).enter deeper' position >>= g) := by
  cases below with
  | some related => exact inner _ _ related
  | none =>
    have failed : R n α (fail (.tooDeep c.settings.maxDepth position)) (fail (.tooDeep c.settings.maxDepth position)) :=
      kept.fault nofun
    exact failed

theorem emitEnclosed (below : Option.Rel (Related R n) deeper deeper') (body : List Statement) :
    R n (List Node) (c.emitEnclosed deeper overrides nodes body position)
      ((c.withLoader l).emitEnclosed deeper' overrides nodes body position) := by
  apply kept.enter below
  intro emit emit' related
  exact kept.frame (kept.emitAll related overrides nodes body) .boundary

theorem emitSection (below : Option.Rel (Related R n) deeper deeper') (name : String) (inverted : Bool)
    (body : List Statement) :
    R n Node (c.emitSection deeper overrides name inverted body position)
      ((c.withLoader l).emitSection deeper' overrides name inverted body position) := by
  refine kept.andThen (kept.resolve name position) fun r => ?_
  apply kept.enter below
  intro emit emit' related
  exact kept.andThen (kept.frame (kept.emitAll related overrides [] body) _) fun nodes => kept.value _

theorem emitInclusion (below : Option.Rel (Related R n) deeper deeper') (name indent : String) :
    R (n + 1) (List Node) (c.emitInclusion deeper overrides name indent position)
      ((c.withLoader l).emitInclusion deeper' overrides name indent position) := by
  refine kept.template ?_ name (some position)
  apply kept.enter below
  intro emit emit' related
  refine kept.andThen (kept.loadTemplate name position) fun source => ?_
  refine kept.andThen kept.state fun s => kept.andThen (kept.event _) fun _ => ?_
  exact kept.frame (kept.emitSource related overrides source indent) .boundary

theorem emitStatement (below : Option.Rel (Related R n) deeper deeper') :
    Related R (n + 1) (c.emitStatement deeper) ((c.withLoader l).emitStatement deeper') := by
  intro overrides nodes stmt
  cases stmt with
  | text content => exact kept.value _
  | interpolation name escape position =>
    exact kept.andThen (kept.resolve name position) fun r => kept.value _
  | sect name inverted body position =>
    have lambdas : (c.withLoader l).lambdas = c.lambdas := rfl
    simp only [Compiler.emitStatement, lambdas]
    split
    · exact kept.andThen (kept.more (kept.emitEnclosed below body)) fun inner => kept.value _
    · exact kept.andThen (kept.more (kept.emitSection below name inverted body)) fun node => kept.value _
  | inclusion name indent position =>
    exact kept.andThen (kept.emitInclusion below name indent) fun inner => kept.value _
  | parent name body position =>
    exact kept.andThen (kept.emitInclusion below name "") fun inner => kept.value _
  | block name body position =>
    simp only [Compiler.emitStatement]
    split
    · exact kept.more (kept.emitEnclosed below _)
    · exact kept.more (kept.emitEnclosed below body)

end

/-- The emitters of a level. A body lies one level deeper, so the induction is on the levels. -/
theorem emitter (levels : Nat) : Related R (levels + 1) (c.emitter levels) ((c.withLoader l).emitter levels) := by
  induction levels with
  | zero => exact kept.emitStatement .none
  | succ levels ih => exact kept.emitStatement (.some ih)

/-- What goes one level deeper. -/
theorem deeper (levels : Nat) : Option.Rel (Related R levels) (c.deeper levels) ((c.withLoader l).deeper levels) := by
  cases levels with
  | zero => exact .none
  | succ levels => exact .some (kept.emitter levels)

theorem compileSource (source name : String) :
    R (c.settings.maxDepth + 2) Program (c.compileSource source name) ((c.withLoader l).compileSource source name) := by
  have emitted := kept.emitSource (kept.emitter c.settings.maxDepth) [] source ""
  refine kept.andThen (kept.template emitted name none) fun nodes => ?_
  exact kept.andThen (kept.event _) fun _ => kept.value _

end Compositional
end Compiler
end Mustache

import Mustache.Proofs.Stepwise

/-!
# The bounds of a compilation

At every step of a compilation the scope is as deep as there are bodies to be closed, and the templates on the
stack are the entry template, those whose inclusion is to be closed, and at most one that is not loaded yet
(`Balanced`). Every way down looks how deep the scope is, so both stacks stay within bounds that the settings
give, and compiling comes to an end (`Compiler.compile_halts`).
-/

namespace Mustache
open Text

/-! ## Stacks in balance -/

namespace Task

/-- How many frames a task takes back. -/
def frames : Task → Nat
  | .close _ => 1
  | _ => 0

/-- How many templates a task takes back. -/
def templates : Task → Nat
  | .load .. | .close (.inclusion _) => 1
  | _ => 0

theorem depth_drop (s : CompileState) (task : Task) : (task.drop s).scope.depth = s.scope.depth - task.frames := by
  cases task with
  | close closing => cases closing <;> exact List.length_tail
  | _ => rfl

theorem size_drop (s : CompileState) (task : Task) : (task.drop s).stack.size = s.stack.size - task.templates := by
  cases task with
  | emit => rfl
  | load => exact List.length_tail
  | close closing =>
    cases closing with
    | inclusion before => exact List.length_tail
    | _ => rfl

theorem templates_le_one (task : Task) : task.templates ≤ 1 := by
  unfold templates
  split <;> omega

end Task

/-- Tasks of which none takes back a template without a frame. -/
def Framed (tasks : List Task) : Prop := ∀ task ∈ tasks, task.templates ≤ task.frames

theorem Framed.sum_le {tasks : List Task} (framed : Framed tasks) :
    (tasks.map Task.templates).sum ≤ (tasks.map Task.frames).sum := by
  induction tasks with
  | nil => exact Nat.le_refl _
  | cons task rest ih =>
    obtain ⟨one, more⟩ := List.forall_mem_cons.mp framed
    exact Nat.add_le_add one (ih more)

/-- The stacks hold what the tasks take back, and the entry template. Only the first task may take back a template
without a frame: while that is loaded. -/
structure Balanced (limit : Nat) (s : CompileState) (tasks : List Task) : Prop where
  depth : s.scope.depth = (tasks.map Task.frames).sum
  size : s.stack.size = 1 + (tasks.map Task.templates).sum
  within : s.scope.depth ≤ limit
  framed : Framed tasks.tail

namespace Balanced

variable {limit : Nat} {s t : CompileState} {task : Task} {tasks : List Task}

theorem keeps (balanced : Balanced limit s tasks) (same : Keeps s t) : Balanced limit t tasks := by
  obtain ⟨depth, size, within, framed⟩ := balanced
  rw [← same.1] at depth within
  rw [← same.2] at size
  exact ⟨depth, size, within, framed⟩

/-- Statements to be emitted take back nothing. -/
theorem emit {overrides : Overrides} {stmts : List Statement} (balanced : Balanced limit s tasks)
    (framed : Framed tasks) : Balanced limit s (.emit overrides stmts :: tasks) := by
  obtain ⟨depth, size, within, _⟩ := balanced
  refine ⟨?_, ?_, within, framed⟩
  · simpa [Task.frames] using depth
  · simpa [Task.templates] using size

/-- When a task is over. -/
theorem drop (balanced : Balanced limit s (task :: tasks)) : Balanced limit (task.drop s) tasks := by
  obtain ⟨depth, size, within, framed⟩ := balanced
  rw [List.map_cons, List.sum_cons] at depth size
  refine ⟨?_, ?_, ?_, fun task member => framed task (List.mem_of_mem_tail member)⟩
  · rw [Task.depth_drop]
    omega
  · rw [Task.size_drop]
    omega
  · rw [Task.depth_drop]
    omega

theorem size_le (balanced : Balanced limit s tasks) : s.stack.size ≤ limit + 2 := by
  obtain ⟨depth, size, within, framed⟩ := balanced
  cases tasks with
  | nil => simp [size]
  | cons task rest =>
    have first := task.templates_le_one
    have others := Framed.sum_le framed
    rw [List.map_cons, List.sum_cons] at depth size
    rw [List.tail_cons] at others
    omega

end Balanced

/-! ## Steps -/

namespace Compiler
open CompileM

variable {c : Compiler} {s t : CompileState} {e : CompileError} {tasks : List Task} {nodes : List Node}
  {overrides : Overrides} {name indent : String} {position : Position}

/-- The stacks of a compilation fit to what is left to do. -/
def Fits (c : Compiler) (m : Compilation) : Prop := Balanced c.settings.maxDepth m.state m.tasks

/-- Goes deeper with room for one frame more. -/
theorem fits_deepen {inner : Compilation} (balanced : Balanced c.settings.maxDepth s tasks)
    (goes_on : s.scope.depth < c.settings.maxDepth → c.Fits inner) : c.Fits (c.deepen s position tasks inner) := by
  unfold deepen
  split
  · exact balanced
  · exact goes_on (by omega)

theorem fits_descend {frame : Frame} {body : List Statement} {closing : Closing}
    (balanced : Balanced c.settings.maxDepth s tasks) (framed : Framed tasks)
    (plain : ∀ before, closing ≠ .inclusion before) :
    c.Fits (c.descend s position frame overrides nodes body closing tasks) := by
  have alone : (Task.close closing).templates = 0 := by
    cases closing with
    | inclusion before => exact absurd rfl (plain before)
    | _ => rfl
  refine fits_deepen balanced fun room => ⟨?_, ?_, room, ?_⟩
  · simp [Compilation.state, Compilation.tasks, depth_push, balanced.depth, Task.frames, Nat.add_comm]
  · have none : (Task.emit overrides body).templates = 0 := rfl
    simp [Compilation.state, Compilation.tasks, alone, none, balanced.size]
  · exact List.forall_mem_cons.mpr ⟨by simp [alone], framed⟩

theorem fits_openTemplate (balanced : Balanced c.settings.maxDepth s tasks) (framed : Framed tasks) :
    c.Fits (openTemplate s overrides name indent position nodes tasks) := by
  unfold openTemplate
  cases pushed : s.stack.push? name (some position) with
  | error e => exact balanced
  | ok stack =>
    have size : stack.size = s.stack.size + 1 := by
      unfold TemplateStack.push? at pushed
      split at pushed <;> cases pushed
      rfl
    refine ⟨?_, ?_, balanced.within, framed⟩
    · simp [Compilation.state, Compilation.tasks, Task.frames, balanced.depth]
    · simp only [Compilation.state, Compilation.tasks, List.map_cons, List.sum_cons, Task.templates, size,
        balanced.size]
      omega

theorem fits_readTemplate
    (balanced : Balanced c.settings.maxDepth s (.load overrides name indent position :: tasks)) :
    c.Fits (c.readTemplate s overrides name indent position nodes tasks) := by
  refine fits_deepen balanced fun room => ?_
  cases loaded : c.loadTemplate name position s with
  | error e t => exact balanced.keeps ((exits_loadTemplate c name position).error loaded)
  | ok source t =>
    have keeps := (exits_loadTemplate c name position).ok loaded
    obtain ⟨depth, size, within, framed⟩ := balanced.keeps keeps
    have closes : Framed (.close (.inclusion nodes) :: tasks) := List.forall_mem_cons.mpr ⟨Nat.le_refl 1, framed⟩
    have inside : Balanced c.settings.maxDepth
        { t with scope := t.scope.push .boundary, events := t.events ++ [.including name t.stack.size] }
        (.close (.inclusion nodes) :: tasks) := by
      refine ⟨?_, ?_, ?_, framed⟩
      · simp only [List.map_cons, List.sum_cons, Task.frames, depth_push] at depth ⊢
        omega
      · simpa [Task.templates] using size
      · rw [depth_push, keeps.1]
        exact room
    dsimp only
    cases Statement.ofSource source indent with
    | error fault => exact inside
    | ok stmts => exact inside.emit closes

theorem fits_visit (balanced : Balanced c.settings.maxDepth s tasks) (framed : Framed tasks) (stmt : Statement) :
    c.Fits (c.visit s overrides nodes tasks stmt) := by
  cases stmt with
  | text content => exact balanced
  | interpolation name escape position =>
    simp only [visit]
    cases resolved : c.resolve name position s with
    | error e t => exact balanced.keeps ((exits_resolve c name position).error resolved)
    | ok r t => exact balanced.keeps ((exits_resolve c name position).ok resolved)
  | sect name inverted body position =>
    simp only [visit]
    split
    · exact fits_descend balanced framed (by simp)
    · cases resolved : c.resolve name position s with
      | error e t => exact balanced.keeps ((exits_resolve c name position).error resolved)
      | ok r t => exact fits_descend (balanced.keeps ((exits_resolve c name position).ok resolved)) framed (by simp)
  | inclusion name indent position => exact fits_openTemplate balanced framed
  | parent name body position => exact fits_openTemplate balanced framed
  | block name body position =>
    simp only [visit]
    split <;> exact fits_descend balanced framed (by simp)

/-- A step keeps the stacks in balance. -/
theorem Fits.step {m : Compilation} (fits : c.Fits m) : c.Fits (c.step m) := by
  cases m with
  | unwinding e s tasks =>
    cases tasks with
    | nil => exact fits
    | cons task tasks => exact fits.drop
  | running s nodes tasks =>
    cases tasks with
    | nil => exact fits
    | cons task tasks =>
      cases task with
      | close closing => exact fits.drop
      | load overrides name indent position => exact fits_readTemplate fits
      | emit overrides stmts =>
        cases stmts with
        | nil => exact fits.drop
        | cons stmt rest =>
          have framed : Framed tasks := fits.framed
          have left : Balanced c.settings.maxDepth s tasks := fits.drop
          exact fits_visit (left.emit framed) (List.forall_mem_cons.mpr ⟨Nat.le_refl 0, framed⟩) stmt

/-- And so do all steps. -/
theorem fits_steps {m : Compilation} (fits : c.Fits m) (n : Nat) : c.Fits (c.steps n m) := by
  induction n generalizing m with
  | zero => exact fits
  | succ n ih => exact ih (Fits.step fits)

theorem fits_atStart (c : Compiler) (source name : String) : c.Fits (c.atStart source name) := by
  unfold atStart
  cases Statement.ofSource source "" <;> exact ⟨rfl, rfl, Nat.zero_le _, nofun⟩

/-- Compiling comes to an end whatever the loader gives. The scope is never deeper than the settings allow, and the
stack never holds more than two templates more. -/
theorem compile_halts (c : Compiler) (source name : String) :
    (∃ n, ∀ later, (c.steps (n + later) (c.atStart source name)).result? name = some (c.compile source name)) ∧
      ∀ n, (c.steps n (c.atStart source name)).state.scope.depth ≤ c.settings.maxDepth ∧
        (c.steps n (c.atStart source name)).state.stack.size ≤ c.settings.maxDepth + 2 := by
  obtain ⟨m, ⟨n, reached⟩, result⟩ := leads_to_result c source name
  refine ⟨⟨n, fun later => ?_⟩, fun n => ?_⟩
  · rw [steps_add, reached, steps_of_result result, result]
  · have fits := fits_steps (fits_atStart c source name) n
    exact ⟨Balanced.within fits, Balanced.size_le fits⟩

end Compiler
end Mustache

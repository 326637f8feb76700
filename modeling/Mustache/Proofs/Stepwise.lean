import Mustache.Proofs.Exits

/-!
# Compiling step by step

A compilation as a machine that does one thing after another (`Compiler.step`), with a list of what is left to
do. It counts no levels: before it goes deeper it looks how deep the scope is. Whatever the loader gives, it
comes to an end, with the result of the compiler (`Compiler.leads_to_result`).
-/

namespace Mustache
open Text

/-! ## The machine -/

/-- How a body ends. -/
inductive Closing where
  | enclosed
  | sect (lookup : Lookup) (kind : SectionKind) (before : List Node)
  | lambda (name : String) (before : List Node)
  | inclusion (before : List Node)

/-- Something left to do. -/
inductive Task where
  | emit (overrides : Overrides) (stmts : List Statement)
  /-- A template that is on the stack already is entered and read. -/
  | load (overrides : Overrides) (name indent : String) (position : Position)
  | close (closing : Closing)

/-- A compilation under way: the nodes of the current body, newest first, and what is left to do; or an error
that is taken outward. -/
inductive Compilation where
  | running (s : CompileState) (nodes : List Node) (tasks : List Task)
  | unwinding (e : CompileError) (s : CompileState) (tasks : List Task)

namespace Closing
open CompileM

/-- The nodes behind a body, from those of the body. -/
def nodes (inner : List Node) : Closing → List Node
  | .enclosed => inner
  | .sect lookup kind before => Node.push before (.sect lookup kind inner.reverse)
  | .lambda name before => Node.push before (.lambda name inner.reverse)
  | .inclusion before => inner.reverse.foldl Node.push before

/-- Takes back what was put on the stacks for a body. -/
def drop (s : CompileState) : Closing → CompileState
  | .inclusion _ => dropTemplate (dropFrame s)
  | _ => dropFrame s

end Closing

/-- Takes back what was put on the stacks for a task. -/
def Task.drop (s : CompileState) : Task → CompileState
  | .emit .. => s
  | .load .. => CompileM.dropTemplate s
  | .close closing => closing.drop s

namespace Compilation

def state : Compilation → CompileState
  | .running s _ _ | .unwinding _ s _ => s

def tasks : Compilation → List Task
  | .running _ _ tasks | .unwinding _ _ tasks => tasks

/-- The result of a compilation under a name, when nothing is left to do. -/
def result? (name : String) : Compilation → Option (EStateM.Result CompileError CompileState Program)
  | .running s nodes [] =>
    let program : Program := { name, nodes := nodes.reverse }
    some (.ok program { CompileM.dropTemplate s with events := s.events ++ [.compiled name program.size] })
  | .unwinding e s [] => some (.error e (CompileM.dropTemplate s))
  | _ => none

end Compilation

namespace Compiler
open CompileM

/-- Goes deeper unless the scope is as deep as it may be. -/
def deepen (c : Compiler) (s : CompileState) (position : Position) (tasks : List Task) (inner : Compilation) :
    Compilation :=
  if c.settings.maxDepth ≤ s.scope.depth then
    .unwinding (s.stack.error (.tooDeep c.settings.maxDepth position)) s tasks
  else inner

/-- Goes into a body behind a frame. -/
def descend (c : Compiler) (s : CompileState) (position : Position) (frame : Frame) (overrides : Overrides)
    (nodes : List Node) (body : List Statement) (closing : Closing) (tasks : List Task) : Compilation :=
  c.deepen s position tasks <|
    .running { s with scope := s.scope.push frame } nodes (.emit overrides body :: .close closing :: tasks)

/-- Puts a template on the stack, to be loaded next. -/
def openTemplate (s : CompileState) (overrides : Overrides) (name indent : String) (position : Position)
    (nodes : List Node) (tasks : List Task) : Compilation :=
  match s.stack.push? name (some position) with
  | .error e => .unwinding e s tasks
  | .ok stack => .running { s with stack } nodes (.load overrides name indent position :: tasks)

/-- Loads the template on top of the stack and goes into it. -/
def readTemplate (c : Compiler) (s : CompileState) (overrides : Overrides) (name indent : String)
    (position : Position) (nodes : List Node) (tasks : List Task) : Compilation :=
  let failing := .load overrides name indent position :: tasks
  c.deepen s position failing <|
    match c.loadTemplate name position s with
    | .error e t => .unwinding e t failing
    | .ok source t =>
      let t : CompileState :=
        { t with scope := t.scope.push .boundary, events := t.events ++ [.including name t.stack.size] }
      match Statement.ofSource source indent with
      | .error fault => .unwinding (t.stack.error fault) t (.close (.inclusion nodes) :: tasks)
      | .ok stmts => .running t [] (.emit overrides stmts :: .close (.inclusion nodes) :: tasks)

/-- Does the first part of a statement, up to where its body begins. -/
def visit (c : Compiler) (s : CompileState) (overrides : Overrides) (nodes : List Node) (tasks : List Task) :
    Statement → Compilation
  | .text content => .running s (Node.push nodes (.text content)) tasks
  | .interpolation name escape position =>
    match c.resolve name position s with
    | .ok r t => .running t (Node.push nodes (.interpolation r.lookup escape)) tasks
    | .error e t => .unwinding e t tasks
  | .sect name inverted body position =>
    if !inverted && c.lambdas.contains name then
      c.descend s position .boundary overrides [] body (.lambda name nodes) tasks
    else
      match c.resolve name position s with
      | .ok r t =>
        let (kind, frame) := sectionKind inverted r
        c.descend t position frame overrides [] body (.sect r.lookup kind nodes) tasks
      | .error e t => .unwinding e t tasks
  | .inclusion name indent position => openTemplate s [] name indent position nodes tasks
  | .parent name body position =>
    openTemplate s (Dictionary.insertAll overrides (directBlocks body)) name "" position nodes tasks
  | .block name body position =>
    match Dictionary.find? name overrides with
    | some replacement =>
      c.descend s position .boundary (Dictionary.erase name overrides) nodes replacement .enclosed tasks
    | none => c.descend s position .boundary overrides nodes body .enclosed tasks

/-- One step; a compilation with nothing left to do stays as it is. -/
def step (c : Compiler) : Compilation → Compilation
  | .running s nodes (.emit _ [] :: tasks) => .running s nodes tasks
  | .running s nodes (.emit overrides (stmt :: rest) :: tasks) =>
    c.visit s overrides nodes (.emit overrides rest :: tasks) stmt
  | .running s nodes (.load overrides name indent position :: tasks) =>
    c.readTemplate s overrides name indent position nodes tasks
  | .running s nodes (.close closing :: tasks) => .running (closing.drop s) (closing.nodes nodes) tasks
  | .unwinding e s (task :: tasks) => .unwinding e (task.drop s) tasks
  | m => m

/-- So many steps. -/
def steps (c : Compiler) : Nat → Compilation → Compilation
  | 0, m => m
  | n + 1, m => c.steps n (c.step m)

/-- The beginning of a compilation, with the entry template on the stack. -/
def atStart (c : Compiler) (source name : String) : Compilation :=
  let s := { c.start with stack := ⟨[⟨name, none⟩]⟩ }
  match Statement.ofSource source "" with
  | .ok stmts => .running s [] [.emit [] stmts]
  | .error fault => .unwinding (s.stack.error fault) s []

end Compiler

namespace Compiler
open CompileM

/-! ## The way to the end -/

/-- From one stage of a compilation steps lead to another. -/
def Leads (c : Compiler) (m m' : Compilation) : Prop := ∃ n, c.steps n m = m'

/-- What a part of a compilation leaves to the rest: the nodes made of its value, or its error. -/
def settle {α : Type} (tasks : List Task) (close : α → List Node) :
    EStateM.Result CompileError CompileState α → Compilation
  | .ok a t => .running t (close a) tasks
  | .error e t => .unwinding e t tasks

section

variable {c : Compiler} {m m' m'' : Compilation} {s : CompileState} {levels : Nat} {overrides : Overrides}
  {nodes : List Node} {tasks : List Task} {position : Position} {name indent : String} {stmt : Statement}

theorem Leads.refl (m : Compilation) : c.Leads m m := ⟨0, rfl⟩

theorem Leads.step (rest : c.Leads (c.step m) m') : c.Leads m m' := by
  obtain ⟨n, reached⟩ := rest
  exact ⟨n + 1, reached⟩

theorem steps_add (c : Compiler) (a b : Nat) (m : Compilation) : c.steps (a + b) m = c.steps b (c.steps a m) := by
  induction a generalizing m with
  | zero => rw [Nat.zero_add, steps]
  | succ a ih => rw [Nat.add_right_comm, steps, ih, steps]

theorem Leads.trans (first : c.Leads m m') (second : c.Leads m' m'') : c.Leads m m'' := by
  obtain ⟨a, rfl⟩ := first
  obtain ⟨b, rfl⟩ := second
  exact ⟨a + b, steps_add c a b m⟩

/-- A compilation with a result does nothing any more. -/
theorem steps_of_result {r : EStateM.Result CompileError CompileState Program} (done : m.result? name = some r)
    (n : Nat) : c.steps n m = m := by
  have stands : c.step m = m := by
    cases m with
    | running s nodes tasks =>
      cases tasks with
      | nil => rfl
      | cons task tasks => cases done
    | unwinding e s tasks =>
      cases tasks with
      | nil => rfl
      | cons task tasks => cases done
  induction n with
  | zero => rfl
  | succ n ih => rw [steps, stands, ih]

theorem settle_map {α β : Type} (tasks : List Task) (close : β → List Node) (run : CompileM α) (f : α → β)
    (s : CompileState) :
    settle tasks close ((do return f (← run) : CompileM β) s) = settle tasks (close ∘ f) (run s) := by
  cases done : run s <;> simp [bind, EStateM.bind, done, pure, EStateM.pure, settle]

/-- Steps do what the emitter of a level does, at the depth that belongs to the level. -/
def Simulates (c : Compiler) (levels : Nat) : Prop :=
  ∀ {overrides stmts nodes s tasks}, s.scope.depth + levels = c.settings.maxDepth →
    c.Leads (.running s nodes (.emit overrides stmts :: tasks))
      (settle tasks id (emitAll (c.emitter levels) overrides nodes stmts s))

/-- Behind a body it is closed, also for an error. -/
theorem Simulates.closed {lower : Nat} (simulates : Simulates c lower) (s : CompileState) (overrides : Overrides)
    (nodes : List Node) (body : List Statement) (closing : Closing) (tasks : List Task)
    (room : s.scope.depth + lower = c.settings.maxDepth) :
    c.Leads (.running s nodes (.emit overrides body :: .close closing :: tasks))
      (settle tasks (closing.nodes ·)
        (takenBack (closing.drop ·) (emitAll (c.emitter lower) overrides nodes body s))) := by
  refine (simulates room).trans ?_
  cases emitAll (c.emitter lower) overrides nodes body s with
  | ok out t => exact .step (.refl _)
  | error e t => exact .step (.refl _)

theorem depth_push (scope : Scope) (frame : Frame) : (scope.push frame).depth = scope.depth + 1 := rfl

/-- A body behind a frame. -/
theorem leads_descend (below : ∀ lower, levels = lower + 1 → Simulates c lower)
    (room : s.scope.depth + levels = c.settings.maxDepth) (frame : Frame) (body : List Statement) (closing : Closing)
    (drops : (closing.drop ·) = dropFrame) :
    c.Leads (c.descend s position frame overrides nodes body closing tasks)
      (settle tasks (closing.nodes ·)
        ((do inFrame frame (emitAll (← c.enter (c.deeper levels) position) overrides nodes body)) s)) := by
  unfold descend deepen
  cases levels with
  | zero =>
    rw [if_pos (by omega)]
    exact .refl _
  | succ lower =>
    rw [if_neg (by omega)]
    have inside : (s.scope.push frame).depth + lower = c.settings.maxDepth := by
      rw [depth_push]
      omega
    have closed := Simulates.closed (below lower rfl) { s with scope := s.scope.push frame } overrides nodes body
      closing tasks inside
    rw [drops] at closed
    exact closed

/-- An included template. -/
theorem leads_openTemplate (below : ∀ lower, levels = lower + 1 → Simulates c lower)
    (room : s.scope.depth + levels = c.settings.maxDepth) :
    c.Leads (openTemplate s overrides name indent position nodes tasks)
      (settle tasks (·.reverse.foldl Node.push nodes)
        (c.emitInclusion (c.deeper levels) overrides name indent position s)) := by
  rw [openTemplate, emitInclusion_eq]
  cases s.stack.push? name (some position) with
  | error e => exact .refl _
  | ok stack =>
    refine .step ?_
    simp only [step, readTemplate, deepen]
    cases levels with
    | zero =>
      rw [if_pos (by omega)]
      exact .step (.refl _)
    | succ lower =>
      rw [if_neg (by omega)]
      simp only [deeper]
      cases loaded : c.loadTemplate name position { s with stack } with
      | error e t => exact .step (.refl _)
      | ok source t =>
        have inside : (t.scope.push .boundary).depth + lower = c.settings.maxDepth := by
          have same : t.scope.depth = s.scope.depth := by
            rw [((exits_loadTemplate c name position).ok loaded).1]
          rw [depth_push, same]
          omega
        dsimp only [emitSource]
        cases Statement.ofSource source indent with
        | error fault => exact .step (.refl _)
        | ok stmts =>
          have closed := Simulates.closed (below lower rfl)
            { t with scope := t.scope.push .boundary, events := t.events ++ [.including name t.stack.size] }
            overrides [] stmts (.inclusion nodes) tasks inside
          refine closed.trans ?_
          dsimp only
          cases emitAll (c.emitter lower) overrides [] stmts _ <;> exact .refl _

/-- A statement, from its first part on. -/
theorem leads_visit (below : ∀ lower, levels = lower + 1 → Simulates c lower)
    (room : s.scope.depth + levels = c.settings.maxDepth) (stmt : Statement) :
    c.Leads (c.visit s overrides nodes tasks stmt)
      (settle tasks id (c.emitStatement (c.deeper levels) overrides nodes stmt s)) := by
  cases stmt with
  | text content => exact .refl _
  | interpolation name escape position =>
    simp only [visit, emitStatement, settle_map]
    cases c.resolve name position s <;> exact .refl _
  | sect name inverted body position =>
    by_cases calls : (!inverted && c.lambdas.contains name) = true
    · simp only [visit, emitStatement, calls, if_true, settle_map]
      exact leads_descend below room .boundary body (.lambda name nodes) rfl
    · simp only [visit, emitStatement, calls, Bool.false_eq_true, if_false, settle_map]
      simp only [emitSection, bind, EStateM.bind]
      cases resolved : c.resolve name position s with
      | error e t => exact .refl _
      | ok r t =>
        have same : t.scope.depth + levels = c.settings.maxDepth := by
          rw [((exits_resolve c name position).ok resolved).1, room]
        refine (leads_descend below same _ body _ rfl).trans ?_
        simp only [bind, EStateM.bind]
        cases c.enter (c.deeper levels) position t with
        | error e u => exact .refl _
        | ok emit u =>
          dsimp only
          cases inFrame (sectionKind inverted r).2 (emitAll emit overrides [] body) u <;> exact .refl _
  | inclusion name indent position =>
    simp only [visit, emitStatement, settle_map]
    exact leads_openTemplate below room
  | parent name body position =>
    simp only [visit, emitStatement, settle_map]
    exact leads_openTemplate below room
  | block name body position =>
    simp only [visit, emitStatement]
    cases Dictionary.find? name overrides with
    | some replacement => exact leads_descend below room .boundary replacement .enclosed rfl
    | none => exact leads_descend below room .boundary body .enclosed rfl

/-- Steps do what the emitters do. -/
theorem simulates (c : Compiler) (levels : Nat) : Simulates c levels := by
  -- A body lies one level deeper, so the outer induction is on the levels.
  induction levels using Nat.strongRecOn with
  | ind levels ih =>
    have below : ∀ lower, levels = lower + 1 → Simulates c lower := fun lower same => ih lower (by omega)
    intro overrides stmts nodes s tasks room
    induction stmts generalizing nodes s with
    | nil => exact .step (.refl _)
    | cons stmt rest after =>
      refine .step ((leads_visit below room stmt).trans ?_)
      have first : emitAll (c.emitter levels) overrides nodes (stmt :: rest) = (do
          emitAll (c.emitter levels) overrides (← c.emitStatement (c.deeper levels) overrides nodes stmt) rest) := by
        rw [emitAll, List.foldlM_cons, emitter_eq]
        rfl
      simp only [first, bind, EStateM.bind]
      cases one : c.emitStatement (c.deeper levels) overrides nodes stmt s with
      | error e t => exact .step (.refl _)
      | ok mid t =>
        obtain ⟨_, _, _, _, meets⟩ := didOne_of_ok (fun lower _ => emits_of_ok c lower) one
        exact after (by rw [meets.keeps.1, room])

/-- Steps lead to the result of the compiler. -/
theorem leads_to_result (c : Compiler) (source name : String) :
    ∃ m, c.Leads (c.atStart source name) m ∧ m.result? name = some (c.compile source name) := by
  have started : c.start.stack.push? name none = .ok ⟨[⟨name, none⟩]⟩ := rfl
  unfold atStart compile compileSource
  simp only [bind, EStateM.bind, inTemplate, started, emitSource]
  cases Statement.ofSource source "" with
  | error fault => exact ⟨_, .refl _, rfl⟩
  | ok stmts =>
    refine ⟨_, simulates c c.settings.maxDepth (Nat.zero_add _), ?_⟩
    dsimp only
    cases emitAll (c.emitter c.settings.maxDepth) [] [] stmts { c.start with stack := ⟨[⟨name, none⟩]⟩ } <;> rfl

end

end Compiler
end Mustache

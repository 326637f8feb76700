import Mustache.Proofs.Runs

/-!
# What compiling emits

The nodes of statements as a relation without state: in a scope, below some templates, with some
overrides and so many levels left, statements meet names and emit nodes (`Emits`). Texts stay apart in
it and are joined where a body ends (`Node.joined`). A run of the compiler succeeds exactly where the
relation holds (`emits_of_ok`, `ok_of_emits`).
-/

namespace Mustache
open Text

namespace Node

/-- Nodes in order, adjacent texts joined. -/
def joined (nodes : List Node) : List Node := (nodes.foldl push []).reverse

theorem push_push_text (nodes : List Node) (a b : String) :
    push (push nodes (.text a)) (.text b) = push nodes (.text (a ++ b)) := by
  cases nodes with
  | nil => rfl
  | cons n r => cases n <;> simp [push, String.append_assoc]

/-- Joining texts early does not matter. -/
theorem foldl_push_reverse_push (built : List Node) (n : Node) (nodes : List Node) :
    (push built n).reverse.foldl push nodes = push (built.reverse.foldl push nodes) n := by
  have apart : (n :: built).reverse.foldl push nodes = push (built.reverse.foldl push nodes) n := by
    rw [List.reverse_cons, List.foldl_append, List.foldl_cons, List.foldl_nil]
  cases built with
  | nil => exact apart
  | cons m r =>
    cases m with
    | text a =>
      cases n with
      | text b =>
        simp only [push, List.reverse_cons, List.foldl_append, List.foldl_cons, List.foldl_nil]
        exact (push_push_text _ a b).symm
      | _ => exact apart
    | _ => exact apart

theorem foldl_push_joined (nodes before : List Node) : (joined nodes).foldl push before = nodes.foldl push before := by
  suffices general : ∀ built : List Node,
      (nodes.foldl push built).reverse.foldl push before = nodes.foldl push (built.reverse.foldl push before) from
    general []
  intro built
  induction nodes generalizing built with
  | nil => rfl
  | cons n r ih => rw [List.foldl_cons, ih, foldl_push_reverse_push, List.foldl_cons]

end Node

/-! ## The relation -/

open Compiler in
/-- Statements with what they meet and emit: every name with what it refers to, and the nodes. The levels
count how much deeper sections, blocks, lambdas and inclusions may still go. -/
inductive Emits (c : Compiler) : Nat → Scope → List String → Overrides → List Statement →
    List (String × Resolution) → List Node → Prop where
  | nil {levels scope chain overrides} : Emits c levels scope chain overrides [] [] []
  | text {levels scope chain overrides content rest met nodes}
      (after : Emits c levels scope chain overrides rest met nodes) :
    Emits c levels scope chain overrides (.text content :: rest) met (.text content :: nodes)
  | interpolation {levels scope chain overrides name escape position rest met nodes r}
      (refers : c.resolution? scope name = some r) (after : Emits c levels scope chain overrides rest met nodes) :
    Emits c levels scope chain overrides (.interpolation name escape position :: rest) ((name, r) :: met)
      (.interpolation r.lookup escape :: nodes)
  | lambda {levels scope chain overrides name body position rest inner met innerNodes nodes}
      (calls : c.lambdas.contains name = true)
      (within : Emits c levels (scope.push .boundary) chain overrides body inner innerNodes)
      (after : Emits c (levels + 1) scope chain overrides rest met nodes) :
    Emits c (levels + 1) scope chain overrides (.sect name false body position :: rest) (inner ++ met)
      (.lambda name (Node.joined innerNodes) :: nodes)
  | sect {levels scope chain overrides name inverted body position rest inner met innerNodes nodes r}
      (plain : (!inverted && c.lambdas.contains name) = false) (refers : c.resolution? scope name = some r)
      (within : Emits c levels (scope.push (sectionKind inverted r).2) chain overrides body inner innerNodes)
      (after : Emits c (levels + 1) scope chain overrides rest met nodes) :
    Emits c (levels + 1) scope chain overrides (.sect name inverted body position :: rest)
      ((name, r) :: (inner ++ met)) (.sect r.lookup (sectionKind inverted r).1 (Node.joined innerNodes) :: nodes)
  | inclusion {levels scope chain overrides name indent position source stmts rest inner met innerNodes nodes}
      (fresh : name ∉ chain) (loaded : c.source? name = some source)
      (parsed : Statement.ofSource source indent = .ok stmts)
      (within : Emits c levels (scope.push .boundary) (chain ++ [name]) [] stmts inner innerNodes)
      (after : Emits c (levels + 1) scope chain overrides rest met nodes) :
    Emits c (levels + 1) scope chain overrides (.inclusion name indent position :: rest) (inner ++ met)
      (innerNodes ++ nodes)
  | parent {levels scope chain overrides name body position source stmts rest inner met innerNodes nodes}
      (fresh : name ∉ chain) (loaded : c.source? name = some source)
      (parsed : Statement.ofSource source "" = .ok stmts)
      (within : Emits c levels (scope.push .boundary) (chain ++ [name])
        (Dictionary.insertAll overrides (directBlocks body)) stmts inner innerNodes)
      (after : Emits c (levels + 1) scope chain overrides rest met nodes) :
    Emits c (levels + 1) scope chain overrides (.parent name body position :: rest) (inner ++ met)
      (innerNodes ++ nodes)
  | replaced {levels scope chain overrides name body position replacement rest inner met innerNodes nodes}
      (found : Dictionary.find? name overrides = some replacement)
      (within : Emits c levels (scope.push .boundary) chain (Dictionary.erase name overrides) replacement
        inner innerNodes)
      (after : Emits c (levels + 1) scope chain overrides rest met nodes) :
    Emits c (levels + 1) scope chain overrides (.block name body position :: rest) (inner ++ met)
      (innerNodes ++ nodes)
  | block {levels scope chain overrides name body position rest inner met innerNodes nodes}
      (own : Dictionary.find? name overrides = none)
      (within : Emits c levels (scope.push .boundary) chain overrides body inner innerNodes)
      (after : Emits c (levels + 1) scope chain overrides rest met nodes) :
    Emits c (levels + 1) scope chain overrides (.block name body position :: rest) (inner ++ met)
      (innerNodes ++ nodes)

namespace Compiler
open CompileM

/-! ## From runs to the relation -/

/-- The emitter for what goes one level deeper. -/
def deeper (c : Compiler) : Nat → Option Emitter
  | 0 => none
  | levels + 1 => some (c.emitter levels)

theorem emitter_eq (c : Compiler) (levels : Nat) : c.emitter levels = c.emitStatement (c.deeper levels) := by
  cases levels <;> rfl

/-- What a run over statements did: it emitted the nodes of the relation, and met the names of the relation. -/
def Did (c : Compiler) (levels : Nat) (overrides : Overrides) (stmts : List Statement) (before : List Node)
    (s : CompileState) (out : List Node) (t : CompileState) : Prop :=
  ∃ met nodes, Emits c levels s.scope s.stack.chain overrides stmts met nodes ∧
    out = nodes.foldl Node.push before ∧ Meets met s t

/-- What a run of one statement did, whatever statements come after it. -/
def DidOne (c : Compiler) (levels : Nat) (overrides : Overrides) (stmt : Statement) (before : List Node)
    (s : CompileState) (out : List Node) (t : CompileState) : Prop :=
  ∃ met nodes, (∀ rest later laterNodes, Emits c levels s.scope s.stack.chain overrides rest later laterNodes →
      Emits c levels s.scope s.stack.chain overrides (stmt :: rest) (met ++ later) (nodes ++ laterNodes)) ∧
    out = nodes.foldl Node.push before ∧ Meets met s t

section

variable {c : Compiler} {levels : Nat} {overrides : Overrides} {stmt : Statement} {stmts rest : List Statement}
  {before mid out : List Node} {s t u : CompileState} {position : Position} {name : String}

theorem DidOne.cons (one : DidOne c levels overrides stmt before s mid u)
    (after : Did c levels overrides rest mid u out t) : Did c levels overrides (stmt :: rest) before s out t := by
  obtain ⟨met, nodes, extend, rfl, meets⟩ := one
  obtain ⟨later, laterNodes, emits, rfl, meetsOn⟩ := after
  rw [meets.keeps.1, meets.keeps.2] at emits
  refine ⟨met ++ later, nodes ++ laterNodes, extend _ _ _ emits, ?_, meets.append meetsOn⟩
  rw [List.foldl_append]

/-- The runs of one level: what is emitted there is what the relation says. -/
def Sound (c : Compiler) (levels : Nat) : Prop :=
  ∀ {overrides stmts before out s t}, emitAll (c.emitter levels) overrides before stmts s = .ok out t →
    Did c levels overrides stmts before s out t

/-- A level below which there are others. -/
theorem deeper_eq_some {emit : Emitter} (there : c.deeper levels = some emit) :
    ∃ lower, levels = lower + 1 ∧ emit = c.emitter lower := by
  cases levels with
  | zero => cases there
  | succ lower => exact ⟨lower, rfl, (Option.some.inj there).symm⟩

theorem didOne_of_enclosed {body : List Statement} (sound : ∀ lower, levels = lower + 1 → Sound c lower)
    (run : c.emitEnclosed (c.deeper levels) overrides before body position s = .ok out t) :
    ∃ lower met nodes, levels = lower + 1 ∧
      Emits c lower (s.scope.push .boundary) s.stack.chain overrides body met nodes ∧
      out = nodes.foldl Node.push before ∧ Meets met s t := by
  obtain ⟨emit, u, there, ran, rfl⟩ := emitEnclosed_ok_iff.mp run
  obtain ⟨lower, rfl, rfl⟩ := deeper_eq_some there
  obtain ⟨met, nodes, emits, rfl, meets⟩ := sound lower rfl ran
  exact ⟨lower, met, nodes, rfl, emits, rfl, meets.inFrame⟩

theorem didOne_of_inclusion {indent : String} (sound : ∀ lower, levels = lower + 1 → Sound c lower)
    (run : c.emitInclusion (c.deeper levels) overrides name indent position s = .ok out t) :
    ∃ lower source stmts met nodes, levels = lower + 1 ∧ name ∉ s.stack.chain ∧ c.source? name = some source ∧
      Statement.ofSource source indent = .ok stmts ∧
      Emits c lower (s.scope.push .boundary) (s.stack.chain ++ [name]) overrides stmts met nodes ∧
      out.reverse = Node.joined nodes ∧ Meets met s t := by
  obtain ⟨fresh, emit, source, stmts, u, v, there, ran, parsed, emitted, rfl⟩ := emitInclusion_ok_iff.mp run
  obtain ⟨lower, rfl, rfl⟩ := deeper_eq_some there
  obtain ⟨loaded, keeps, same⟩ :
      c.source? name = some source ∧ Keeps (inside s name position) u ∧ u.events = (inside s name position).events := by
    simpa [ran] using loadTemplate_spec c name position (inside s name position)
  obtain ⟨met, nodes, emits, rfl, meets⟩ := sound lower rfl emitted
  refine ⟨lower, source, stmts, met, nodes, rfl, fresh, loaded, parsed, ?_, rfl, meets.inTemplate keeps same⟩
  have chain : u.stack.chain = s.stack.chain ++ [name] := by rw [keeps.2, inside, chain_push]
  simpa [keeps.1, chain, inside] using emits

theorem didOne_of_ok (sound : ∀ lower, levels = lower + 1 → Sound c lower)
    (run : c.emitStatement (c.deeper levels) overrides before stmt s = .ok out t) :
    DidOne c levels overrides stmt before s out t := by
  cases stmt with
  | text content =>
    obtain ⟨rfl, rfl⟩ := pure_ok_iff.mp run
    exact ⟨[], [.text content], fun _ _ _ => .text, rfl, Meets.nil s⟩
  | interpolation name escape position =>
    obtain ⟨r, u, resolved, last⟩ := bind_ok_iff.mp run
    obtain ⟨rfl, rfl⟩ := pure_ok_iff.mp last
    obtain ⟨refers, meets⟩ : c.resolution? s.scope name = some r ∧ Meets [(name, r)] s u := by
      simpa [resolved] using resolve_spec c name position s
    exact ⟨[(name, r)], [.interpolation r.lookup escape], fun _ _ _ => .interpolation refers, rfl, meets⟩
  | sect name inverted body position =>
    by_cases calls : (!inverted && c.lambdas.contains name) = true
    · simp only [emitStatement, calls, if_true] at run
      obtain ⟨inner, u, ran, last⟩ := bind_ok_iff.mp run
      obtain ⟨rfl, rfl⟩ := pure_ok_iff.mp last
      obtain ⟨lower, met, nodes, rfl, emits, rfl, meets⟩ := didOne_of_enclosed sound ran
      obtain ⟨rfl, listed⟩ : inverted = false ∧ c.lambdas.contains name = true := by simpa using calls
      exact ⟨met, [.lambda name (Node.joined nodes)], fun _ _ _ => .lambda listed emits, rfl, meets⟩
    · simp only [emitStatement, calls] at run
      obtain ⟨node, u, ran, last⟩ := bind_ok_iff.mp run
      obtain ⟨rfl, rfl⟩ := pure_ok_iff.mp last
      obtain ⟨r, v, emit, inner, w, resolved, there, emitted, rfl, rfl⟩ := emitSection_ok_iff.mp ran
      obtain ⟨lower, rfl, rfl⟩ := deeper_eq_some there
      obtain ⟨refers, meets⟩ : c.resolution? s.scope name = some r ∧ Meets [(name, r)] s v := by
        simpa [resolved] using resolve_spec c name position s
      obtain ⟨met, nodes, emits, rfl, meetsOn⟩ := sound lower rfl emitted
      have within : Emits c lower (s.scope.push (sectionKind inverted r).2) s.stack.chain overrides body met nodes := by
        simpa [meets.keeps.1, meets.keeps.2] using emits
      exact ⟨(name, r) :: met, [.sect r.lookup (sectionKind inverted r).1 (Node.joined nodes)],
        fun _ _ _ => .sect (by simpa using calls) refers within, rfl, meets.append meetsOn.inFrame⟩
  | inclusion name indent position =>
    obtain ⟨inner, u, ran, last⟩ := bind_ok_iff.mp run
    obtain ⟨rfl, rfl⟩ := pure_ok_iff.mp last
    obtain ⟨lower, source, stmts, met, nodes, rfl, fresh, loaded, parsed, emits, joined, meets⟩ :=
      didOne_of_inclusion sound ran
    refine ⟨met, nodes, fun _ _ _ => .inclusion fresh loaded parsed emits, ?_, meets⟩
    rw [joined, Node.foldl_push_joined]
  | parent name body position =>
    obtain ⟨inner, u, ran, last⟩ := bind_ok_iff.mp run
    obtain ⟨rfl, rfl⟩ := pure_ok_iff.mp last
    obtain ⟨lower, source, stmts, met, nodes, rfl, fresh, loaded, parsed, emits, joined, meets⟩ :=
      didOne_of_inclusion sound ran
    refine ⟨met, nodes, fun _ _ _ => .parent fresh loaded parsed emits, ?_, meets⟩
    rw [joined, Node.foldl_push_joined]
  | block name body position =>
    cases found : Dictionary.find? name overrides with
    | some replacement =>
      simp only [emitStatement, found] at run
      obtain ⟨lower, met, nodes, rfl, emits, same, meets⟩ := didOne_of_enclosed sound run
      exact ⟨met, nodes, fun _ _ _ => .replaced found emits, same, meets⟩
    | none =>
      simp only [emitStatement, found] at run
      obtain ⟨lower, met, nodes, rfl, emits, same, meets⟩ := didOne_of_enclosed sound run
      exact ⟨met, nodes, fun _ _ _ => .block found emits, same, meets⟩

/-- A run that succeeds did what the relation says. -/
theorem emits_of_ok (c : Compiler) (levels : Nat) : Sound c levels := by
  -- The body of a statement runs one level deeper, so the outer induction is on the levels.
  induction levels using Nat.strongRecOn with
  | ind levels ih =>
    have sound : ∀ lower, levels = lower + 1 → Sound c lower := fun lower same => ih lower (by omega)
    intro overrides stmts before out s t run
    induction stmts generalizing before s with
    | nil =>
      obtain ⟨rfl, rfl⟩ := pure_ok_iff.mp run
      exact ⟨[], [], .nil, rfl, Meets.nil s⟩
    | cons stmt rest after =>
      rw [emitAll_cons_ok_iff, emitter_eq] at run
      obtain ⟨mid, u, one, others⟩ := run
      exact (didOne_of_ok sound one).cons (after (emitter_eq c levels ▸ others))

end

/-! ## From the relation to runs -/

section

variable {c : Compiler} {levels : Nat} {scope : Scope} {chain : List String} {overrides : Overrides}
  {stmts : List Statement} {met : List (String × Resolution)} {nodes : List Node}

/-- Every run from a state at the given place succeeds, with the given nodes. -/
def Runs (c : Compiler) (levels : Nat) (scope : Scope) (chain : List String) (overrides : Overrides)
    (stmts : List Statement) (met : List (String × Resolution)) (nodes : List Node) : Prop :=
  ∀ (before : List Node) (s : CompileState), s.scope = scope → s.stack.chain = chain →
    ∃ t, emitAll (c.emitter levels) overrides before stmts s = .ok (nodes.foldl Node.push before) t ∧ Meets met s t

/-- Every run of a statement from a state at the given place succeeds, with the given nodes. -/
def RunsOne (c : Compiler) (levels : Nat) (scope : Scope) (chain : List String) (overrides : Overrides)
    (stmt : Statement) (met : List (String × Resolution)) (nodes : List Node) : Prop :=
  ∀ (before : List Node) (s : CompileState), s.scope = scope → s.stack.chain = chain →
    ∃ t, c.emitStatement (c.deeper levels) overrides before stmt s = .ok (nodes.foldl Node.push before) t ∧ Meets met s t

theorem RunsOne.cons {stmt : Statement} {later : List (String × Resolution)} {laterNodes : List Node}
    (one : RunsOne c levels scope chain overrides stmt met nodes)
    (after : Runs c levels scope chain overrides stmts later laterNodes) :
    Runs c levels scope chain overrides (stmt :: stmts) (met ++ later) (nodes ++ laterNodes) := by
  intro before s inScope below
  obtain ⟨u, run, meets⟩ := one before s inScope below
  obtain ⟨t, others, meetsOn⟩ := after _ u (meets.keeps.1.trans inScope) (by rw [meets.keeps.2, below])
  refine ⟨t, ?_, meets.append meetsOn⟩
  rw [emitAll_cons_ok_iff, emitter_eq, List.foldl_append]
  exact ⟨_, u, run, emitter_eq c levels ▸ others⟩

theorem Runs.enclosed (within : Runs c levels (scope.push .boundary) chain overrides stmts met nodes)
    (position : Position) (before : List Node) {s : CompileState} (inScope : s.scope = scope)
    (below : s.stack.chain = chain) :
    ∃ t, c.emitEnclosed (c.deeper (levels + 1)) overrides before stmts position s =
      .ok (nodes.foldl Node.push before) t ∧ Meets met s t := by
  obtain ⟨u, run, meets⟩ := within before { s with scope := s.scope.push .boundary } (by rw [inScope]) below
  exact ⟨dropFrame u, emitEnclosed_ok_iff.mpr ⟨_, u, rfl, run, rfl⟩, meets.inFrame⟩

theorem Runs.included {name source indent : String} (fresh : name ∉ chain) (loaded : c.source? name = some source)
    (parsed : Statement.ofSource source indent = .ok stmts)
    (within : Runs c levels (scope.push .boundary) (chain ++ [name]) overrides stmts met nodes)
    (position : Position) {s : CompileState} (inScope : s.scope = scope) (below : s.stack.chain = chain) :
    ∃ t, c.emitInclusion (c.deeper (levels + 1)) overrides name indent position s =
      .ok (nodes.foldl Node.push []) t ∧ Meets met s t := by
  obtain ⟨u, ran, keeps, same⟩ := loadTemplate_ok loaded position (Compiler.inside s name position)
  have chained : u.stack.chain = chain ++ [name] := by rw [keeps.2, inside, chain_push, below]
  have placed : u.scope.push .boundary = scope.push .boundary := by rw [keeps.1, inside, inScope]
  obtain ⟨v, emitted, meets⟩ := within [] { u with
    scope := u.scope.push .boundary
    events := u.events ++ [.including name u.stack.size] } placed chained
  refine ⟨dropTemplate (dropFrame v), ?_, meets.inTemplate keeps same⟩
  rw [← below] at fresh
  exact emitInclusion_ok_iff.mpr ⟨fresh, _, source, stmts, u, v, rfl, ran, parsed, emitted, rfl⟩

/-- The relation promises runs that succeed. -/
theorem ok_of_emits (emits : Emits c levels scope chain overrides stmts met nodes) :
    Runs c levels scope chain overrides stmts met nodes := by
  induction emits with
  | nil => exact fun before s _ _ => ⟨s, rfl, Meets.nil s⟩
  | @text levels scope chain overrides content _ _ _ _ after =>
    have one : RunsOne c levels scope chain overrides (.text content) [] [.text content] :=
      fun before s _ _ => ⟨s, rfl, Meets.nil s⟩
    exact one.cons after
  | @interpolation levels scope chain overrides name escape position _ _ _ r refers _ after =>
    have one : RunsOne c levels scope chain overrides (.interpolation name escape position) [(name, r)]
        [.interpolation r.lookup escape] := by
      intro before s inScope _
      obtain ⟨t, resolved, meets⟩ := resolve_ok (inScope ▸ refers) position
      exact ⟨t, bind_ok_iff.mpr ⟨r, t, resolved, rfl⟩, meets⟩
    exact one.cons after
  | @lambda levels scope chain overrides name body position _ inner _ innerNodes _ calls _ _ within after =>
    have one : RunsOne c (levels + 1) scope chain overrides (.sect name false body position) inner
        [.lambda name (Node.joined innerNodes)] := by
      intro before s inScope below
      obtain ⟨t, run, meets⟩ := within.enclosed position [] inScope below
      refine ⟨t, ?_, meets⟩
      simp only [emitStatement, calls, Bool.not_false, Bool.and_true, if_true]
      exact bind_ok_iff.mpr ⟨_, t, run, rfl⟩
    exact one.cons after
  | @sect levels scope chain overrides name inverted body position _ inner _ innerNodes _ r plain refers _ _ within
      after =>
    have one : RunsOne c (levels + 1) scope chain overrides (.sect name inverted body position) ((name, r) :: inner)
        [.sect r.lookup (sectionKind inverted r).1 (Node.joined innerNodes)] := by
      intro before s inScope below
      obtain ⟨u, resolved, meets⟩ := resolve_ok (inScope ▸ refers) position
      obtain ⟨v, run, meetsOn⟩ := within [] { u with scope := u.scope.push (sectionKind inverted r).2 }
        (by rw [meets.keeps.1, inScope]) (by rw [meets.keeps.2, below])
      refine ⟨dropFrame v, ?_, meets.append meetsOn.inFrame⟩
      simp only [emitStatement, plain, Bool.false_eq_true, if_false]
      exact bind_ok_iff.mpr ⟨_, _, emitSection_ok_iff.mpr ⟨r, u, _, _, v, resolved, rfl, run, rfl, rfl⟩, rfl⟩
    exact one.cons after
  | @inclusion levels scope chain overrides name indent position _ _ _ inner _ innerNodes _ fresh loaded parsed _ _
      within after =>
    have one : RunsOne c (levels + 1) scope chain overrides (.inclusion name indent position) inner innerNodes := by
      intro before s inScope below
      obtain ⟨t, run, meets⟩ := within.included fresh loaded parsed position inScope below
      exact ⟨t, bind_ok_iff.mpr ⟨_, t, run, pure_ok_iff.mpr ⟨Node.foldl_push_joined _ _, rfl⟩⟩, meets⟩
    exact one.cons after
  | @parent levels scope chain overrides name body position _ _ _ inner _ innerNodes _ fresh loaded parsed _ _
      within after =>
    have one : RunsOne c (levels + 1) scope chain overrides (.parent name body position) inner innerNodes := by
      intro before s inScope below
      obtain ⟨t, run, meets⟩ := within.included fresh loaded parsed position inScope below
      exact ⟨t, bind_ok_iff.mpr ⟨_, t, run, pure_ok_iff.mpr ⟨Node.foldl_push_joined _ _, rfl⟩⟩, meets⟩
    exact one.cons after
  | @replaced levels scope chain overrides name body position _ _ inner _ innerNodes _ found _ _ within after =>
    have one : RunsOne c (levels + 1) scope chain overrides (.block name body position) inner innerNodes := by
      intro before s inScope below
      simp only [emitStatement, found]
      exact within.enclosed position before inScope below
    exact one.cons after
  | @block levels scope chain overrides name body position _ inner _ innerNodes _ own _ _ within after =>
    have one : RunsOne c (levels + 1) scope chain overrides (.block name body position) inner innerNodes := by
      intro before s inScope below
      simp only [emitStatement, own]
      exact within.enclosed position before inScope below
    exact one.cons after

end

/-! ## Programs -/

/-- Where a compilation starts: at a source under a name, or at the template at a path. -/
inductive Entry where
  | source (text name : String)
  | path (path : String)

def Entry.name : Entry → String
  | .source _ given => given
  | .path place => place

def entrySource? (c : Compiler) : Entry → Option String
  | .source text _ => some text
  | .path path => c.pathSource? path

def compileEntry (c : Compiler) : Entry → EStateM.Result CompileError CompileState Program
  | .source text name => c.compile text name
  | .path path => c.compilePath path

section

variable {c : Compiler} {source name path : String} {p : Program} {s t : CompileState}

/-- A program is the joined nodes of its source, in the scope of the model alone. -/
def Compiles (c : Compiler) (source name : String) (met : List (String × Resolution)) (p : Program) : Prop :=
  ∃ stmts nodes, Statement.ofSource source "" = .ok stmts ∧
    Emits c c.settings.maxDepth { model := c.schema } [name] [] stmts met nodes ∧ p = ⟨name, Node.joined nodes⟩

/-- Compiles statements under a name, as if they had been read from a source. -/
def compileStatements (c : Compiler) (stmts : List Statement) (name : String) : CompileM Program := do
  let nodes ← CompileM.inTemplate name none (emitAll (c.emitter c.settings.maxDepth) [] [] stmts)
  let program := { name, nodes := nodes.reverse }
  CompileM.report (.compiled name program.size)
  return program

/-- Compiling a source is compiling the statements that are read from it. -/
theorem compileSource_eq {source : String} {stmts : List Statement} (parsed : Statement.ofSource source "" = .ok stmts)
    (c : Compiler) (name : String) : c.compileSource source name = c.compileStatements stmts name := by
  rw [compileSource, emitSource, parsed, compileStatements]

theorem parsed_of_compileSource (run : c.compileSource source name s = .ok p t) :
    ∃ stmts, Statement.ofSource source "" = .ok stmts := by
  obtain ⟨_, _, read, _⟩ := bind_ok_iff.mp run
  obtain ⟨_, _, inner, _⟩ := inTemplate_ok_iff.mp read
  obtain ⟨stmts, parsed, _⟩ := emitSource_ok_iff.mp inner
  exact ⟨stmts, parsed⟩

theorem emits_of_compileStatements {stmts : List Statement} (scope : s.scope = { model := c.schema })
    (stack : s.stack = {}) (run : c.compileStatements stmts name s = .ok p t) :
    ∃ met nodes, Emits c c.settings.maxDepth { model := c.schema } [name] [] stmts met nodes ∧
      p = ⟨name, Node.joined nodes⟩ ∧ resolvedNames t.events = resolvedNames s.events ++ met.flatMap reportedName := by
  obtain ⟨out, u, read, run⟩ := bind_ok_iff.mp run
  obtain ⟨_, v, reported, last⟩ := bind_ok_iff.mp run
  obtain ⟨rfl, rfl⟩ := pure_ok_iff.mp last
  cases reported
  obtain ⟨_, w, inner, rfl⟩ := inTemplate_ok_iff.mp read
  obtain ⟨met, nodes, emits, rfl, _, names⟩ := emits_of_ok c _ inner
  refine ⟨met, nodes, ?_, rfl, by simpa [resolvedNames, dropTemplate] using names⟩
  simpa [scope, stack, TemplateStack.chain] using emits

theorem compileStatements_of_emits {stmts : List Statement} {met : List (String × Resolution)} {nodes : List Node}
    (emits : Emits c c.settings.maxDepth { model := c.schema } [name] [] stmts met nodes)
    (scope : s.scope = { model := c.schema }) (stack : s.stack = {}) :
    ∃ t, c.compileStatements stmts name s = .ok ⟨name, Node.joined nodes⟩ t ∧
      resolvedNames t.events = resolvedNames s.events ++ met.flatMap reportedName := by
  obtain ⟨u, emitted, _, names⟩ := ok_of_emits emits [] { s with stack := ⟨[⟨name, none⟩]⟩ } scope rfl
  have read : inTemplate name none (emitAll (c.emitter c.settings.maxDepth) [] [] stmts) s =
      .ok (nodes.foldl Node.push []) (dropTemplate u) := by
    refine inTemplate_ok_iff.mpr ⟨by simp [stack, TemplateStack.chain], u, ?_, rfl⟩
    rw [stack]
    exact emitted
  refine ⟨_, bind_ok_iff.mpr ⟨_, _, read, bind_ok_iff.mpr ⟨(), _, rfl, rfl⟩⟩, ?_⟩
  simpa [resolvedNames, dropTemplate] using names

theorem compiles_of_compileSource (scope : s.scope = { model := c.schema }) (stack : s.stack = {})
    (run : c.compileSource source name s = .ok p t) :
    ∃ met, Compiles c source name met p ∧
      resolvedNames t.events = resolvedNames s.events ++ met.flatMap reportedName := by
  obtain ⟨stmts, parsed⟩ := parsed_of_compileSource run
  rw [compileSource_eq parsed] at run
  obtain ⟨met, nodes, emits, built, names⟩ := emits_of_compileStatements scope stack run
  exact ⟨met, ⟨stmts, nodes, parsed, emits, built⟩, names⟩

theorem compileSource_of_compiles {met : List (String × Resolution)} (compiles : Compiles c source name met p)
    (scope : s.scope = { model := c.schema }) (stack : s.stack = {}) :
    ∃ t, c.compileSource source name s = .ok p t ∧
      resolvedNames t.events = resolvedNames s.events ++ met.flatMap reportedName := by
  obtain ⟨stmts, nodes, parsed, emits, rfl⟩ := compiles
  rw [compileSource_eq parsed]
  exact compileStatements_of_emits emits scope stack

theorem compiles_of_compile (run : c.compile source name = .ok p t) :
    ∃ met, Compiles c source name met p ∧ resolvedNames t.events = met.flatMap reportedName := by
  obtain ⟨met, compiles, names⟩ := compiles_of_compileSource (s := c.start) rfl rfl run
  exact ⟨met, compiles, names⟩

theorem compile_of_compiles {met : List (String × Resolution)} (compiles : Compiles c source name met p) :
    ∃ t, c.compile source name = .ok p t ∧ resolvedNames t.events = met.flatMap reportedName := by
  obtain ⟨t, run, names⟩ := compileSource_of_compiles (s := c.start) compiles rfl rfl
  exact ⟨t, run, names⟩

theorem compiles_of_entry {entry : Entry} (run : c.compileEntry entry = .ok p t) :
    ∃ source met, c.entrySource? entry = some source ∧ Compiles c source entry.name met p ∧
      resolvedNames t.events = met.flatMap reportedName := by
  cases entry with
  | source text name =>
    obtain ⟨met, compiles, names⟩ := compiles_of_compile run
    exact ⟨text, met, rfl, compiles, names⟩
  | path path =>
    obtain ⟨source, u, loaded, run⟩ := bind_ok_iff.mp run
    obtain ⟨found, keeps, same⟩ : c.pathSource? path = some source ∧ Keeps c.start u ∧ u.events = c.start.events := by
      simpa [loaded] using loadPath_spec c path {} c.start
    obtain ⟨met, compiles, names⟩ := compiles_of_compileSource keeps.1 keeps.2 run
    refine ⟨source, met, found, compiles, ?_⟩
    rw [names, same]
    rfl

theorem entry_of_compiles {entry : Entry} {met : List (String × Resolution)} (found : c.entrySource? entry = some source)
    (compiles : Compiles c source entry.name met p) :
    ∃ t, c.compileEntry entry = .ok p t ∧ resolvedNames t.events = met.flatMap reportedName := by
  cases entry with
  | source text name =>
    obtain rfl : text = source := Option.some.inj found
    exact compile_of_compiles compiles
  | path path =>
    obtain ⟨u, loaded, keeps, same⟩ := loadPath_ok found {} c.start
    obtain ⟨t, run, names⟩ := compileSource_of_compiles compiles keeps.1 keeps.2
    refine ⟨t, bind_ok_iff.mpr ⟨_, u, loaded, run⟩, ?_⟩
    rw [names, same]
    rfl

def tagText (content : String) : String := "\x7b\x7b" ++ content ++ "\x7d\x7d"

def program? : EStateM.Result CompileError CompileState Program → Option Program
  | .ok p _ => some p
  | .error _ _ => none

theorem exists_of_program? (done : program? (c.compile source name) = some p) :
    ∃ s, c.compile source name = .ok p s := by
  cases run : c.compile source name with
  | ok q s =>
    obtain rfl : q = p := by simpa [run, program?] using done
    exact ⟨s, rfl⟩
  | error e s => simp [run, program?] at done

end

end Compiler
end Mustache

import Mustache.Proofs.Relaxation
import Mustache.Proofs.TagNames
import Mustache.Proofs.Printing

/-!
# An inclusion is transparent

A template that consists of one inclusion compiles, with one level more, exactly when the included template compiles
by itself, and to the same nodes (`Compiler.inclusion_transparent`). The entry template must not be one of those
that are included on the way: these are told apart by a relation (`Visits`), which says no more than the events of
a compilation do (`Compiler.reported_of_visits`).
-/

namespace Mustache
open Text

/-! ## Templates on the way -/

open Compiler in
/-- Compiling some statements comes to an inclusion of a template. -/
inductive Visits (c : Compiler) : Nat → Scope → List String → Overrides → List Statement → String → Prop where
  | later {levels scope chain overrides stmt rest met nodes name}
      (first : Emits c levels scope chain overrides [stmt] met nodes)
      (behind : Visits c levels scope chain overrides rest name) :
    Visits c levels scope chain overrides (stmt :: rest) name
  | here {levels scope chain overrides stmt rest name indent position inner}
      (includes : Includes overrides stmt name indent position inner) :
    Visits c levels scope chain overrides (stmt :: rest) name
  | inside {levels scope chain overrides stmt rest position frame inner body name}
      (opens : c.Opens scope overrides stmt position frame inner body)
      (within : Visits c levels (scope.push frame) chain inner body name) :
    Visits c (levels + 1) scope chain overrides (stmt :: rest) name
  | included {levels scope chain overrides stmt rest by_ indent position inner source stmts name}
      (includes : Includes overrides stmt by_ indent position inner) (loaded : c.source? by_ = some source)
      (parsed : Statement.ofSource source indent = .ok stmts)
      (within : Visits c levels (scope.push .boundary) (chain ++ [by_]) inner stmts name) :
    Visits c (levels + 1) scope chain overrides (stmt :: rest) name

section

variable {c : Compiler} {levels : Nat} {scope scope' : Scope} {chain chain' : List String} {overrides : Overrides}
  {stmts : List Statement} {met : List (String × Resolution)} {nodes : List Node} {name : String}

/-- A template that is not visited may be open as well. -/
theorem Emits.amid (emits : Emits c levels scope chain overrides stmts met nodes)
    (unvisited : ¬ Visits c levels scope chain overrides stmts name) (one_more : chain' ⊆ name :: chain)
    (same : scope'.values = scope.values) : Emits c levels scope' chain' overrides stmts met nodes := by
  have below : ∀ {chain chain' : List String}, chain' ⊆ name :: chain → ∀ by_, chain' ++ [by_] ⊆ name :: (chain ++ [by_]) :=
    fun one_more by_ => Subset.below one_more by_
  have still : ∀ {chain chain' : List String} {by_ : String}, chain' ⊆ name :: chain → by_ ∉ chain → by_ ≠ name →
      by_ ∉ chain' := by
    intro chain chain' by_ one_more fresh other member
    rcases List.mem_cons.mp (one_more member) with rfl | member
    · exact other rfl
    · exact fresh member
  induction emits generalizing scope' chain' with
  | nil => exact .nil
  | text _ after => exact .text (after (fun visits => unvisited (.later (.text .nil) visits)) one_more same)
  | interpolation refers _ after =>
    have later := after (fun visits => unvisited (.later (.interpolation refers .nil) visits)) one_more same
    rw [← Compiler.resolution?_congr same] at refers
    exact .interpolation refers later
  | lambda calls emitted _ within after =>
    have later := after (fun visits => unvisited (.later (.lambda calls emitted .nil) visits)) one_more same
    have inner := within (fun visits => unvisited (.inside (.lambda calls) visits)) one_more
      (Scope.values_push_congr same .boundary)
    exact .lambda calls inner later
  | sect plain refers emitted _ within after =>
    have later := after (fun visits => unvisited (.later (.sect plain refers emitted .nil) visits)) one_more same
    have inner := within (fun visits => unvisited (.inside (.sect plain refers) visits)) one_more
      (Scope.values_push_congr same _)
    rw [← Compiler.resolution?_congr same] at refers
    exact .sect plain refers inner later
  | inclusion fresh loaded parsed emitted _ within after =>
    have later := after (fun visits => unvisited (.later (.inclusion fresh loaded parsed emitted .nil) visits))
      one_more same
    have inner := within (fun visits => unvisited (.included .inclusion loaded parsed visits)) (below one_more _)
      (Scope.values_push_congr same .boundary)
    exact .inclusion (still one_more fresh fun it => unvisited (it ▸ .here .inclusion)) loaded parsed inner later
  | parent fresh loaded parsed emitted _ within after =>
    have later := after (fun visits => unvisited (.later (.parent fresh loaded parsed emitted .nil) visits))
      one_more same
    have inner := within (fun visits => unvisited (.included .parent loaded parsed visits)) (below one_more _)
      (Scope.values_push_congr same .boundary)
    exact .parent (still one_more fresh fun it => unvisited (it ▸ .here .parent)) loaded parsed inner later
  | replaced found emitted _ within after =>
    have later := after (fun visits => unvisited (.later (.replaced found emitted .nil) visits)) one_more same
    have inner := within (fun visits => unvisited (.inside (.replaced found) visits)) one_more
      (Scope.values_push_congr same .boundary)
    exact .replaced found inner later
  | block own emitted _ within after =>
    have later := after (fun visits => unvisited (.later (.block own emitted .nil) visits)) one_more same
    have inner := within (fun visits => unvisited (.inside (.block own) visits)) one_more
      (Scope.values_push_congr same .boundary)
    exact .block own inner later

end

/-! ## Reports -/

namespace CompileM

/-- Something that takes no report back, however it ends. -/
def Grows {α : Type} (m : CompileM α) : Prop := ∀ s, s.events <+: (stateAfter (m s)).events

section

variable {α β : Type} {m : CompileM α} {s t : CompileState} {a : α}

theorem Grows.ok (grows : Grows m) (run : m s = .ok a t) : s.events <+: t.events := by
  simpa [run, stateAfter] using grows s

theorem Grows.bind {f : α → CompileM β} (first : Grows m) (second : ∀ a, Grows (f a)) : Grows (m >>= f) := by
  intro s
  have begun := first s
  simp only [Bind.bind, EStateM.bind]
  cases run : m s with
  | error e t => simpa [run, stateAfter] using begun
  | ok a t =>
    rw [run] at begun
    exact begun.trans (second a t)

theorem Grows.inFrame (grows : Grows m) (frame : Frame) : Grows (inFrame frame m) := by
  intro s
  rw [inFrame_eq, stateAfter_takenBack]
  exact grows { s with scope := s.scope.push frame }

theorem Grows.inTemplate (grows : Grows m) (name : String) (site : Option Position) : Grows (inTemplate name site m) := by
  intro s
  rw [inTemplate_eq]
  split
  · exact List.prefix_rfl
  · rw [stateAfter_takenBack]
    exact grows { s with stack := ⟨⟨name, site⟩ :: s.stack.frames⟩ }

end

end CompileM

namespace Compiler
open CompileM

theorem grows_compositional (c : Compiler) : c.Compositional c.loader fun _ _ x _ => Grows x where
  value _ _ := List.prefix_rfl
  fault _ _ := List.prefix_rfl
  event _ _ := List.prefix_append _ _
  state _ := List.prefix_rfl
  request path s := by
    unfold request
    cases c.loader path <;> exact List.prefix_rfl
  andThen := .bind
  frame := .inFrame
  template := .inTemplate
  more := id

section

variable {c : Compiler} {levels : Nat} {scope : Scope} {chain : List String} {overrides : Overrides}
  {stmts : List Statement} {before out : List Node} {s t : CompileState} {name path : String} {entry : Entry}
  {p : Program}

theorem grows_emitAll (c : Compiler) (levels : Nat) (overrides : Overrides) (before : List Node)
    (stmts : List Statement) : Grows (emitAll (c.emitter levels) overrides before stmts) :=
  (grows_compositional c).emitAll ((grows_compositional c).emitter levels) overrides before stmts

/-- It is reported that a template is included. -/
def Reported (name : String) (s : CompileState) : Prop := ∃ depth, .including name depth ∈ s.events

theorem Reported.later (reported : Reported name s) (grows : s.events <+: t.events) : Reported name t := by
  obtain ⟨depth, member⟩ := reported
  exact ⟨depth, grows.subset member⟩

/-- An inclusion that succeeds has reported its template, and then run its statements. -/
theorem run_of_inclusion {indent : String} {position : Position}
    (run : c.emitInclusion (c.deeper levels) overrides name indent position s = .ok out t) :
    ∃ lower source stmts u v, levels = lower + 1 ∧ c.source? name = some source ∧
      Statement.ofSource source indent = .ok stmts ∧ u.scope = s.scope.push .boundary ∧
      u.stack.chain = s.stack.chain ++ [name] ∧ Reported name u ∧
      emitAll (c.emitter lower) overrides [] stmts u = .ok out v ∧ t.events = v.events := by
  obtain ⟨_, emit, source, stmts, u, v, there, ran, parsed, emitted, rfl⟩ := emitInclusion_ok_iff.mp run
  obtain ⟨lower, rfl, rfl⟩ := deeper_eq_some there
  obtain ⟨loaded, keeps, _⟩ :
      c.source? name = some source ∧ Keeps (Compiler.inside s name position) u ∧
        u.events = (Compiler.inside s name position).events := by
    simpa [ran] using loadTemplate_spec c name position (Compiler.inside s name position)
  refine ⟨lower, source, stmts, _, v, rfl, loaded, parsed, ?_, ?_, ⟨u.stack.size, ?_⟩, emitted, rfl⟩
  · rw [keeps.1, Compiler.inside]
  · rw [keeps.2, Compiler.inside, chain_push]
  · exact List.mem_append_right _ List.mem_cons_self

/-- What is visited by a run that succeeds is reported by it. -/
theorem reported_of_visits (visits : Visits c levels scope chain overrides stmts name) (inScope : s.scope = scope)
    (below : s.stack.chain = chain) (run : emitAll (c.emitter levels) overrides before stmts s = .ok out t) :
    Reported name t := by
  induction visits generalizing before s out t with
  | later _ _ behind =>
    obtain ⟨mid, u, one, others⟩ := emitAll_cons_ok_iff.mp run
    obtain ⟨scope, stack⟩ := ((exits_compositional c).emitter _ _ _ _).ok one
    exact behind (scope.trans inScope) (by rw [stack, below]) others
  | here includes =>
    obtain ⟨mid, u, one, others⟩ := emitAll_cons_ok_iff.mp run
    rw [emitter_eq, emitStatement_of_includes includes] at one
    obtain ⟨inner, inclusion, _⟩ := map_ok_iff.mp one
    obtain ⟨_, _, _, v, w, _, _, _, _, _, reported, emitted, events⟩ := run_of_inclusion inclusion
    have within := reported.later ((grows_emitAll c _ _ _ _).ok emitted)
    exact within.later (events ▸ (grows_emitAll c _ _ _ _).ok others)
  | inside opens _ within =>
    subst inScope below
    obtain ⟨mid, u, one, others⟩ := emitAll_cons_ok_iff.mp run
    obtain ⟨v, first, last, keeps, same⟩ := emitStatement_of_opens opens before
    rw [emitter_eq, same] at one
    obtain ⟨inner, framed, _⟩ := map_ok_iff.mp one
    obtain ⟨w, ran, rfl⟩ := inFrame_ok_iff.mp framed
    have grown : (dropFrame w).events <+: t.events := (grows_emitAll c _ _ _ _).ok others
    refine (within ?_ ?_ ran).later grown
    · rw [keeps.1]
    · rw [keeps.2]
  | included includes loaded parsed _ within =>
    subst inScope below
    obtain ⟨mid, u, one, others⟩ := emitAll_cons_ok_iff.mp run
    rw [emitter_eq, emitStatement_of_includes includes] at one
    obtain ⟨inner, inclusion, _⟩ := map_ok_iff.mp one
    obtain ⟨_, _, _, v, w, deep, loaded', parsed', scope, chain, _, emitted, events⟩ := run_of_inclusion inclusion
    obtain rfl := Option.some.inj (loaded.symm.trans loaded')
    obtain rfl := Except.ok.inj (parsed.symm.trans parsed')
    obtain rfl := Nat.succ.inj deep
    exact (within scope chain emitted).later (events ▸ (grows_emitAll c _ _ _ _).ok others)

/-- The templates that a compilation reports to include. -/
def visited (c : Compiler) (entry : Entry) : List String :=
  (stateAfter (c.compileEntry entry)).events.filterMap fun
    | .including name _ => some name
    | _ => none

theorem mem_visited_iff : name ∈ c.visited entry ↔ Reported name (stateAfter (c.compileEntry entry)) := by
  rw [visited, List.mem_filterMap]
  constructor
  · rintro ⟨event, member, same⟩
    cases event with
    | including other depth =>
      obtain rfl := Option.some.inj same
      exact ⟨depth, member⟩
    | resolved | compiled => cases same
  · rintro ⟨depth, member⟩
    exact ⟨_, member, rfl⟩

/-- A compilation of a source reports what its statements visit. -/
theorem reported_of_compileSource {source by_ : String} (inScope : s.scope = { model := c.schema })
    (below : s.stack.chain = []) (run : c.compileSource source by_ s = .ok p t)
    (parsed : Statement.ofSource source "" = .ok stmts)
    (visits : Visits c c.settings.maxDepth { model := c.schema } [by_] [] stmts name) : Reported name t := by
  obtain ⟨out, v, read, last⟩ := bind_ok_iff.mp run
  obtain ⟨_, w, inner, rfl⟩ := inTemplate_ok_iff.mp read
  obtain ⟨stmts', parsed', emitted⟩ := emitSource_ok_iff.mp inner
  obtain rfl := Except.ok.inj (parsed.symm.trans parsed')
  have reported : Reported name w := by
    refine reported_of_visits visits ?_ ?_ emitted
    · exact inScope
    · rw [chain_push, below, List.nil_append]
  obtain ⟨_, x, told, done⟩ := bind_ok_iff.mp last
  cases told
  cases done
  exact reported.later (t := { w with events := w.events ++ [_] }) (List.prefix_append _ _)

/-- A compilation of a template reports what its statements visit. -/
theorem mem_visited_of_visits {source : String} (run : c.compileEntry entry = .ok p t)
    (found : c.entrySource? entry = some source) (parsed : Statement.ofSource source "" = .ok stmts)
    (visits : Visits c c.settings.maxDepth { model := c.schema } [entry.name] [] stmts name) : name ∈ c.visited entry := by
  rw [mem_visited_iff, run]
  cases entry with
  | source text given =>
    obtain rfl : text = source := Option.some.inj found
    exact reported_of_compileSource rfl rfl run parsed visits
  | path path =>
    obtain ⟨source', u, ran, compiled⟩ := bind_ok_iff.mp run
    obtain ⟨found', keeps, _⟩ : c.pathSource? path = some source' ∧ Keeps c.start u ∧ u.events = c.start.events := by
      simpa [ran] using loadPath_spec c path {} c.start
    obtain rfl : source = source' := Option.some.inj (found.symm.trans found')
    exact reported_of_compileSource keeps.1 (by rw [keeps.2]; rfl) compiled parsed visits

end

end Compiler

/-! ## A template of one inclusion -/

namespace Lexeme

theorem length_readSigil {cs : List Char} (marked : (readSigil cs).1 ≠ .interpolation) :
    (readSigil cs).2.length < cs.length := by
  cases cs with
  | nil => exact absurd rfl marked
  | cons c r =>
    unfold readSigil at marked ⊢
    cases sigil : TagKind.ofSigil? c with
    | none => simp [sigil] at marked
    | some kind => simpa [sigil, Nat.lt_succ_iff] using (trim_isInfix r).length_le

/-- The name of a tag leaves room for its sigil and for the closing marker. -/
theorem room_of_ofTag {d : Delimiters} {body : List Char} {l : Lexeme} {name : String} {kind : TagKind}
    (tag : OfTag d body l) (named : l.token = .tag name kind) (marked : kind ≠ .interpolation) :
    name.toList.length + 1 + d.closing.toList.length + l.rest.length ≤ body.length := by
  cases tag with
  | change => cases named
  | @triple lead inner body rest _ cut =>
    obtain ⟨rfl, rfl⟩ := Token.tag.inj named
    have shorter := (trim_isInfix body).length_le
    rw [breakOn_eq cut]
    simp only [tripleEnd, String.toList_ofList, List.length_append, List.length_cons]
    omega
  | @plain body inner rest cut =>
    obtain ⟨rfl, rfl⟩ := Token.tag.inj named
    have shorter := (trim_isInfix inner).length_le
    have sigil := length_readSigil marked
    rw [breakOn_eq cut]
    simp only [String.toList_ofList, List.length_append]
    omega

end Lexeme

namespace Compiler

/-- The tag that includes a template of some name: it is read as that tag. -/
def NamedByTag (name : String) : Prop :=
  (tokenize (tagText (">" ++ name))).tokens.map (·.token) = [.tag name .inclusion]

instance (name : String) : Decidable (NamedByTag name) := inferInstanceAs (Decidable (_ = _))

/-- Nothing else is read where a name is read as written. -/
theorem layout_of_namedByTag {name : String} (named : NamedByTag name) :
    ∃ t, t.token = .tag name .inclusion ∧ layout (tagText (">" ++ name)) = ⟨[⟨[t]⟩], none⟩ := by
  have whole : (tagText (">" ++ name)).toList =
      Delimiters.standard.opening.toList ++ ('>' :: (name.toList ++ Delimiters.standard.closing.toList)) := by
    simp [tagText, Delimiters.standard]
  obtain ⟨t, single, token⟩ := List.map_eq_singleton_iff.mp named
  have reads := tokenize_reads (tagText (">" ++ name))
  have ends : (tokenize (tagText (">" ++ name))).final.Ends (tokenize (tagText (">" ++ name))).failure :=
    (Cursor.run_spec _).2
  have done : (tokenize (tagText (">" ++ name))).final.rest = [] := by
    rw [single] at reads
    generalize (tokenize (tagText (">" ++ name))).final = final at reads
    cases reads with
    | @cons _ _ l _ left read rest =>
      cases rest
      rw [whole, lexeme_opening] at read
      have room := Lexeme.room_of_ofTag (Lexeme.ofTag_of_tag read) token (by simp)
      simp only [List.length_cons, List.length_append] at room
      have nothing : l.rest.length = 0 := by omega
      exact List.length_eq_zero_iff.mp nothing
  have clean : (tokenize (tagText (">" ++ name))).failure = none := by
    cases failed : (tokenize (tagText (">" ++ name))).failure with
    | none => rfl
    | some e =>
      rw [failed] at ends
      exact absurd done ends.1
  refine ⟨t, token, ?_⟩
  have grouped : groupLines [t] = ([], [t]) := by simp [groupLines, token, Token.isNewline]
  simp [layout, single, clean, grouped]

/-- The tag stands alone, and without an indentation. -/
theorem ofSource_of_namedByTag {name : String} (named : NamedByTag name) :
    ∃ position, Statement.ofSource (tagText (">" ++ name)) "" = .ok [.inclusion name "" position] := by
  obtain ⟨⟨token, position, start, raw⟩, rfl, laid⟩ := layout_of_namedByTag named
  refine ⟨position, ofSource_eq_ok.mpr ⟨by rw [laid], ?_⟩⟩
  have alone : (⟨[⟨.tag name .inclusion, position, start, raw⟩]⟩ : Line).standalone = true := rfl
  rw [laid, readLines_eq_ok]
  refine ⟨{ stmts := [.inclusion name "" position] }, ?_, rfl, rfl⟩
  simp only [List.foldlM_cons, List.foldlM_nil, Outline.readLine, alone, Line.emitted]
  rfl

section

variable {c : Compiler} {path name : String} {depth : Nat} {p : Program} {s t : CompileState}

/-- The compiler with another number of levels. -/
def withDepth (c : Compiler) (depth : Nat) : Compiler := { c with settings := { c.settings with maxDepth := depth } }

theorem emits_withDepth {levels depth' : Nat} {scope : Scope} {chain : List String} {overrides : Overrides}
    {stmts : List Statement} {met : List (String × Resolution)} {nodes : List Node}
    (emits : Emits (c.withDepth depth) levels scope chain overrides stmts met nodes) :
    Emits (c.withDepth depth') levels scope chain overrides stmts met nodes := by
  have relaxed : Emits ((c.withDepth depth).relaxed depth' c.settings.unresolved) levels scope chain overrides stmts
    met nodes := emits.relaxed (.inl rfl) depth'
  exact relaxed

theorem source?_withDepth (unregistered : Dictionary.find? path c.partials = none) (depth depth' : Nat) :
    (c.withDepth depth).source? path = (c.withDepth depth').pathSource? path := by
  simp only [source?, withDepth, unregistered]
  rfl

/-- What the one inclusion of a template compiles to, the included template compiles to by itself. -/
theorem compilePath_of_inclusion (named : NamedByTag path) (unregistered : Dictionary.find? path c.partials = none)
    (run : (c.withDepth (depth + 1)).compile (tagText (">" ++ path)) name = .ok p s) :
    ∃ t, (c.withDepth depth).compilePath path = .ok ⟨path, p.nodes⟩ t := by
  obtain ⟨position, read⟩ := ofSource_of_namedByTag named
  obtain ⟨met, ⟨stmts, nodes, parsed, emits, rfl⟩, _⟩ := compiles_of_compile run
  obtain rfl := Except.ok.inj (read.symm.trans parsed)
  have emits : Emits (c.withDepth (depth + 1)) (depth + 1) { model := c.schema } [name] []
    [.inclusion path "" position] met nodes := emits
  cases emits with
  | inclusion fresh loaded included within after =>
    cases after
    rw [source?_withDepth unregistered _ depth] at loaded
    have alone := within.elsewhere (Nat.le_refl depth) (List.subset_cons_self name [path])
      (show ({ model := c.schema } : Scope).values = _ from rfl)
    have found : (c.withDepth depth).entrySource? (.path path) = some _ := loaded
    obtain ⟨t, run, _⟩ := entry_of_compiles found ⟨_, _, included, emits_withDepth alone, rfl⟩
    rw [List.append_nil]
    exact ⟨t, run⟩

/-- What a template compiles to by itself, its inclusion compiles to, unless that goes in a ring. -/
theorem compile_of_included (named : NamedByTag path) (unregistered : Dictionary.find? path c.partials = none)
    (other : name ≠ path) (unvisited : name ∉ (c.withDepth depth).visited (.path path))
    (run : (c.withDepth depth).compilePath path = .ok p t) :
    ∃ s, (c.withDepth (depth + 1)).compile (tagText (">" ++ path)) name = .ok ⟨name, p.nodes⟩ s := by
  obtain ⟨position, read⟩ := ofSource_of_namedByTag named
  have run' : (c.withDepth depth).compileEntry (.path path) = .ok p t := run
  obtain ⟨source, met, found, ⟨stmts, nodes, parsed, emits, rfl⟩, _⟩ := compiles_of_entry run'
  have one_more : [name] ++ [path] ⊆ name :: [path] := List.Subset.refl _
  have below := emits.amid (fun visits => unvisited (mem_visited_of_visits run found parsed visits)) one_more
    (show (({ model := c.schema } : Scope).push .boundary).values = _ from rfl)
  have loaded : (c.withDepth (depth + 1)).source? path = some source := by
    rw [source?_withDepth unregistered _ depth]
    exact found
  have fresh : path ∉ [name] := by simpa using Ne.symm other
  have whole : Emits (c.withDepth (depth + 1)) (depth + 1) { model := c.schema } [name] []
    [.inclusion path "" position] _ _ := .inclusion fresh loaded parsed (emits_withDepth below) .nil
  obtain ⟨s, run, _⟩ := compile_of_compiles (c := c.withDepth (depth + 1)) ⟨_, _, read, whole, rfl⟩
  rw [List.append_nil] at run
  exact ⟨s, run⟩

/-- A template that is not registered, included by its path from a template that is not visited on the way, compiles
with one level more to the nodes that it compiles to by itself, or neither compiles. -/
theorem inclusion_transparent (c : Compiler) (depth : Nat) (named : NamedByTag path)
    (unregistered : Dictionary.find? path c.partials = none) (other : name ≠ path)
    (unvisited : name ∉ (c.withDepth depth).visited (.path path)) :
    (program? ((c.withDepth (depth + 1)).compile (tagText (">" ++ path)) name)).map (·.nodes) =
      (program? ((c.withDepth depth).compilePath path)).map (·.nodes) := by
  cases outer : (c.withDepth (depth + 1)).compile (tagText (">" ++ path)) name with
  | ok p s =>
    obtain ⟨t, inner⟩ := compilePath_of_inclusion named unregistered outer
    rw [inner]
    rfl
  | error e s =>
    cases inner : (c.withDepth depth).compilePath path with
    | error e' t => rfl
    | ok q t =>
      obtain ⟨s', again⟩ := compile_of_included named unregistered other unvisited inner
      cases outer.symm.trans again

/-- A template with a section around an inclusion, in one file each. -/
def nestedCompiler : Compiler where
  loader := .ofDictionary [("p", tagText "#xs" ++ "on " ++ tagText ">q" ++ tagText "/xs"), ("q", tagText "this")]

/-- The inclusion has the section and what is included in it. -/
theorem nested_transparent : NamedByTag "p" ∧ Dictionary.find? "p" nestedCompiler.partials = none ∧ "main" ≠ "p" ∧
    "main" ∉ (nestedCompiler.withDepth 2).visited (.path "p") ∧
      (program? ((nestedCompiler.withDepth 2).compilePath "p")).isSome = true ∧
      (program? ((nestedCompiler.withDepth 3).compile (tagText (">" ++ "p")) "main")).map (·.nodes) =
        (program? ((nestedCompiler.withDepth 2).compilePath "p")).map (·.nodes) := by
  have named : NamedByTag "p" := by cbv
  have unregistered : Dictionary.find? "p" nestedCompiler.partials = none := rfl
  have other : "main" ≠ "p" := by decide
  have visited : (nestedCompiler.withDepth 2).visited (.path "p") = ["q"] := by cbv
  have unvisited : "main" ∉ (nestedCompiler.withDepth 2).visited (.path "p") := by simp [visited]
  have compiled : (program? ((nestedCompiler.withDepth 2).compilePath "p")).isSome = true := by cbv
  have same := inclusion_transparent nestedCompiler 2 named unregistered other unvisited
  exact ⟨named, unregistered, other, unvisited, compiled, same⟩

end

end Compiler
end Mustache

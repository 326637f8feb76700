import Mustache.Proofs.Framing
import Mustache.Proofs.Origins
import Mustache.Proofs.Results
import Mustache.Proofs.Transparency

/-!
# Sections of lambdas taken away

A section that calls a lambda adds no value, and where the lambda gives back the body that it is handed, it might as
well not be there. So the statements of a template may be taken out of such sections (`Statement.bare`): what they emit
then renders the same (`Emits.unwrapped`), and so does the whole program (`Compiler.Unwraps.render_eq`). Only the body
of a parent tag must hold no such section directly, since a block that is taken out of it would be an override.
-/

namespace Mustache
open Text

/-! ## Statements out of their lambdas -/

namespace Statement

mutual
/-- A statement with the statements of a body in place of every section around them that is named by a lambda. -/
def unwrap (lambdas : List String) : Statement → List Statement
  | .sect name inverted body position =>
    if !inverted && lambdas.contains name then unwrapAll lambdas body
    else [.sect name inverted (unwrapAll lambdas body) position]
  | .parent name body position => [.parent name (unwrapAll lambdas body) position]
  | .block name body position => [.block name (unwrapAll lambdas body) position]
  | s => [s]

def unwrapAll (lambdas : List String) : List Statement → List Statement
  | [] => []
  | s :: r => unwrap lambdas s ++ unwrapAll lambdas r
end

/-- Statements out of their lambdas, with the texts joined that have become neighbours. -/
def bare (lambdas : List String) (stmts : List Statement) : List Statement := joinedAll (unwrapAll lambdas stmts)

/-- A section that calls a lambda. -/
def isLambda (lambdas : List String) : Statement → Bool
  | .sect name inverted _ _ => !inverted && lambdas.contains name
  | _ => false

variable {lambdas : List String} {stmt : Statement} {stmts rest body : List Statement} {name indent : String}
  {inverted escape : Bool} {position : Position}

theorem inFront_inFront_text (a b : String) (stmts : List Statement) :
    inFront (.text a) (inFront (.text b) stmts) = inFront (.text (a ++ b)) stmts := by
  rcases inFront_text_cases b stmts with ⟨behind, rest, rfl⟩ | apart
  · simp only [inFront, String.append_assoc]
  · rw [apart]
    cases stmts with
    | nil => rfl
    | cons s rest => cases s <;> first | rfl | simp_all [inFront]

theorem foldr_inFront (stmt : Statement) (stmts rest : List Statement) :
    (inFront stmt stmts).foldr inFront rest = inFront stmt (stmts.foldr inFront rest) := by
  cases stmt with
  | text a =>
    rcases inFront_text_cases a stmts with ⟨b, others, rfl⟩ | apart
    · exact (inFront_inFront_text a b _).symm
    · rw [apart, List.foldr_cons]
  | _ => rfl

/-- Joined statements are joined with others behind them. -/
theorem joinedAll_append (stmts rest : List Statement) :
    joinedAll (stmts ++ rest) = (joinedAll stmts).foldr inFront (joinedAll rest) := by
  induction stmts with
  | nil => rfl
  | cons s others ih => rw [List.cons_append, joinedAll, ih, joinedAll, foldr_inFront]

theorem bare_lambda (calls : lambdas.contains name = true) :
    bare lambdas (.sect name false body position :: rest) = (bare lambdas body).foldr inFront (bare lambdas rest) := by
  rw [bare, unwrapAll, unwrap, calls]
  exact joinedAll_append _ _

theorem bare_sect (plain : (!inverted && lambdas.contains name) = false) :
    bare lambdas (.sect name inverted body position :: rest) =
      .sect name inverted (bare lambdas body) position :: bare lambdas rest := by
  rw [bare, unwrapAll, unwrap, plain]
  rfl

/-- The body of a parent holds no section directly that calls a lambda. -/
def Apart (lambdas : List String) : Statement → Prop
  | .parent _ body _ => ∀ s ∈ body, s.isLambda lambdas = false
  | _ => True

/-- The name and the body of a block. -/
def block? : Statement → Option (String × List Statement)
  | .block name body _ => some (name, body)
  | _ => none

theorem directBlocks_eq (body : List Statement) :
    Compiler.directBlocks body = Dictionary.ofList (body.filterMap block?) := by
  rw [Compiler.directBlocks]
  congr 2

theorem filterMap_inFront (stmt : Statement) (stmts : List Statement) :
    (inFront stmt stmts).filterMap block? = (stmt :: stmts).filterMap block? := by
  cases stmt with
  | text content =>
    rcases inFront_text_cases content stmts with ⟨behind, rest, rfl⟩ | apart
    · rfl
    · rw [apart]
  | _ => rfl

/-- Where no section is opened around them, the blocks of a body stay what they are, but for their own bodies. -/
theorem filterMap_bare (apart : ∀ s ∈ body, s.isLambda lambdas = false) :
    (bare lambdas body).filterMap block? = Dictionary.mapValues (bare lambdas) (body.filterMap block?) := by
  induction body with
  | nil => rfl
  | cons s rest ih =>
    obtain ⟨plain, others⟩ := List.forall_mem_cons.mp apart
    have behind := ih others
    cases s with
    | sect name inverted body position =>
      rw [bare_sect plain]
      exact behind
    | text content => exact (filterMap_inFront _ _).trans behind
    | block name body position => exact congrArg (List.cons _) behind
    | _ => exact behind

theorem directBlocks_bare (apart : ∀ s ∈ body, s.isLambda lambdas = false) :
    Compiler.directBlocks (bare lambdas body) = Dictionary.mapValues (bare lambdas) (Compiler.directBlocks body) := by
  rw [directBlocks_eq, filterMap_bare apart, directBlocks_eq, Dictionary.ofList, Dictionary.ofList,
    Dictionary.mapValues_insertAll]
  rfl

end Statement

/-! ## Rendering -/

/-- A renderer in which every lambda gives back the body that it is handed. -/
def Renderer.GivesBack (r : Renderer) (lambdas : List String) : Prop :=
  ∀ name ∈ lambdas, ∃ call, Dictionary.find? name r.lambdas = some (.wrap call) ∧
    ∀ current body, call current body = body

/-- Nodes that render the same, on every stack with a value, where the lambdas give back what they are handed. -/
def RenderAlike (lambdas : List String) (a b : List Node) : Prop :=
  ∀ r : Renderer, r.GivesBack lambdas → ∀ stack ≠ [], r.rendered stack a = r.rendered stack b

namespace RenderAlike

variable {lambdas : List String} {a b c a' b' : List Node} {name : String}

theorem refl (a : List Node) : RenderAlike lambdas a a := fun _ _ _ _ => rfl

theorem trans (first : RenderAlike lambdas a b) (second : RenderAlike lambdas b c) : RenderAlike lambdas a c :=
  fun r gives stack filled => (first r gives stack filled).trans (second r gives stack filled)

theorem append (first : RenderAlike lambdas a a') (second : RenderAlike lambdas b b') :
    RenderAlike lambdas (a ++ b) (a' ++ b') := by
  intro r gives stack filled
  rw [Renderer.rendered_append, first r gives stack filled, second r gives stack filled, ← Renderer.rendered_append]

theorem of_joined (same : Node.joined a = Node.joined b) : RenderAlike lambdas a b := by
  intro r _ stack _
  rw [← Renderer.rendered_joined, same, Renderer.rendered_joined]

theorem cons (n : Node) (behind : RenderAlike lambdas a b) : RenderAlike lambdas (n :: a) (n :: b) :=
  append (refl [n]) behind

theorem sect (lookup : Lookup) (kind : SectionKind) (inside : RenderAlike lambdas a b) :
    RenderAlike lambdas [.sect lookup kind (Node.joined a)] [.sect lookup kind (Node.joined b)] := by
  intro r gives stack filled
  rw [Renderer.rendered_sect, Renderer.rendered_sect]
  congr 1
  refine List.map_congr_left fun inner made => ?_
  have inner_filled : inner ≠ [] := by
    apply List.ne_nil_of_length_pos
    rw [length_of_mem_sectionStacks made]
    exact Nat.add_pos_left (List.length_pos_iff.mpr filled) _
  rw [Renderer.rendered_joined, Renderer.rendered_joined, inside r gives inner inner_filled]

/-- A section whose lambda gives back its body renders as the body. -/
theorem lambda (listed : name ∈ lambdas) (a : List Node) : RenderAlike lambdas [.lambda name (Node.joined a)] a := by
  intro r gives stack filled
  obtain ⟨call, registered, same⟩ := gives name listed
  obtain ⟨current, below, rfl⟩ := List.exists_cons_of_ne_nil filled
  rw [Renderer.rendered_lambda, Renderer.rendered_joined]
  simp only [Renderer.called, registered, List.head?_cons]
  cases result : r.rendered (current :: below) a with
  | error e => rfl
  | ok content => exact congrArg Except.ok (same current content)

end RenderAlike

section

variable {c : Compiler} {levels : Nat} {scope : Scope} {chain : List String} {overrides : Overrides}
  {stmt : Statement} {stmts rest : List Statement} {met later : List (String × Resolution)}
  {nodes laterNodes : List Node}

theorem Emits.split (emits : Emits c levels scope chain overrides (stmt :: rest) met nodes) :
    ∃ first behind one others, met = first ++ behind ∧ nodes = one ++ others ∧
      Emits c levels scope chain overrides [stmt] first one ∧
        Emits c levels scope chain overrides rest behind others := by
  cases emits with
  | text after => exact ⟨[], _, [_], _, rfl, rfl, .text .nil, after⟩
  | interpolation refers after => exact ⟨[_], _, [_], _, rfl, rfl, .interpolation refers .nil, after⟩
  | lambda calls within after =>
    exact ⟨_, _, [_], _, rfl, rfl, by simpa using Emits.lambda calls within .nil, after⟩
  | sect plain refers within after =>
    exact ⟨_ :: _, _, [_], _, rfl, rfl, by simpa using Emits.sect plain refers within .nil, after⟩
  | inclusion fresh loaded parsed within after =>
    exact ⟨_, _, _, _, rfl, rfl, by simpa using Emits.inclusion fresh loaded parsed within .nil, after⟩
  | parent fresh loaded parsed within after =>
    exact ⟨_, _, _, _, rfl, rfl, by simpa using Emits.parent fresh loaded parsed within .nil, after⟩
  | replaced found within after =>
    exact ⟨_, _, _, _, rfl, rfl, by simpa using Emits.replaced found within .nil, after⟩
  | block own within after => exact ⟨_, _, _, _, rfl, rfl, by simpa using Emits.block own within .nil, after⟩

/-- Statements in front of others emit what both emit, where the texts between them are joined too. -/
theorem Emits.inFront (first : Emits c levels scope chain overrides stmts met nodes)
    (second : Emits c levels scope chain overrides rest later laterNodes) :
    ∃ nodes', Emits c levels scope chain overrides (stmts.foldr Statement.inFront rest) (met ++ later) nodes' ∧
      Node.joined nodes' = Node.joined (nodes ++ laterNodes) := by
  induction stmts generalizing met nodes with
  | nil =>
    cases first
    exact ⟨laterNodes, second, rfl⟩
  | cons s others ih =>
    obtain ⟨met, behind, one, nodes, rfl, rfl, here, there⟩ := first.split
    obtain ⟨nodes', emits, same⟩ := ih there
    have apart : Node.joined (one ++ nodes') = Node.joined (one ++ nodes ++ laterNodes) := by
      rw [List.append_assoc]
      exact Node.joined_append_congr rfl same
    rw [List.append_assoc, List.foldr_cons]
    cases s with
    | text content =>
      cases here with
      | text none =>
        cases none
        obtain ⟨nodes'', whole, joined⟩ := emits_inFront_text emits content
        exact ⟨nodes'', whole, joined.trans apart⟩
    | _ => exact ⟨one ++ nodes', here.append emits, apart⟩

end

/-! ## Templates out of their lambdas -/

/-- A text is another one out of its lambdas: whatever the indentation is, its statements are those of the other one,
taken out of their lambdas, but for the positions. -/
def Bares (lambdas : List String) (source other : String) : Prop :=
  ∀ indent stmts, Statement.ofSource source indent = .ok stmts →
    ∃ stmts', Statement.ofSource other indent = .ok stmts' ∧
      Statement.unplacedAll stmts' = Statement.unplacedAll (Statement.bare lambdas stmts)

/-- No section that calls a lambda stands directly in the body of a parent tag, however deep that tag is. -/
def Apart (lambdas : List String) (stmts : List Statement) : Prop :=
  ∀ stmt : Statement, stmt.Occurs stmts → stmt.Apart lambdas

/-- The statements of a text, whatever the indentation is. -/
def ApartIn (lambdas : List String) (source : String) : Prop :=
  ∀ indent stmts, Statement.ofSource source indent = .ok stmts → Apart lambdas stmts

theorem apart_nil (lambdas : List String) : Apart lambdas [] := by
  rintro s (⟨_, ⟨⟩⟩ | ⟨⟨⟩, _⟩)

theorem apart_cons {lambdas : List String} {stmt : Statement} {rest : List Statement} :
    Apart lambdas (stmt :: rest) ↔ stmt.Apart lambdas ∧ Apart lambdas stmt.body ∧ Apart lambdas rest := by
  constructor
  · intro apart
    refine ⟨apart _ (.here List.mem_cons_self), fun s occurs => apart s (.inside List.mem_cons_self occurs), ?_⟩
    intro s occurs
    cases occurs with
    | here member => exact apart s (.here (List.mem_cons_of_mem _ member))
    | inside member within => exact apart s (.inside (List.mem_cons_of_mem _ member) within)
  · rintro ⟨one, inside, others⟩ s occurs
    cases occurs with
    | here member =>
      rcases List.mem_cons.mp member with rfl | behind
      · exact one
      · exact others s (.here behind)
    | inside member within =>
      rcases List.mem_cons.mp member with rfl | behind
      · exact inside s within
      · exact others s (.inside behind within)

/-- There is nothing to be said of a text without parent tags. -/
theorem apartIn_of_parentless (lambdas : List String) {source : String}
    (parentless : ∀ name, Token.tag name .parentStart ∉ (tokenize source).tokens.map (·.token)) :
    ApartIn lambdas source := by
  intro indent stmts parsed stmt occurs
  cases stmt with
  | parent name body position =>
    have opens : .mark (.opens .parent name position) ∈ (Statement.parent name body position).pieces :=
      List.mem_cons_self
    obtain ⟨line, member, t, inside, named, kind, token, marked⟩ := tag_of_mark parsed occurs opens
    have listed : t ∈ (tokenize source).tokens := by
      rw [← tokens_of_lines (ofSource_eq_ok.mp parsed).1]
      exact List.mem_flatMap.mpr ⟨line, member, inside⟩
    cases kind <;> cases marked
    exact absurd (List.mem_map.mpr ⟨t, listed, token⟩) (parentless _)
  | _ => trivial

namespace Compiler

/-- In the template at an entry, and in all that are included, no section that calls a lambda stands directly in the
body of a parent tag. -/
structure LambdasApart (c : Compiler) (entry : Entry) : Prop where
  own : ∀ source stmts, c.entrySource? entry = some source → Statement.ofSource source "" = .ok stmts →
    Apart c.lambdas stmts
  included : ∀ name ∈ c.visited entry, ∀ source, c.source? name = some source → ApartIn c.lambdas source

/-- A compiler has the template at an entry, and all that are included, out of their lambdas, and is otherwise like the
other one; it may know fewer lambdas. -/
structure Unwraps (c e : Compiler) (entry entry' : Entry) : Prop where
  settings : e.settings = c.settings
  schema : e.schema = c.schema
  lambdas : e.lambdas ⊆ c.lambdas
  own : ∀ source, c.entrySource? entry = some source →
    ∃ other, e.entrySource? entry' = some other ∧ Bares c.lambdas source other
  included : ∀ name ∈ c.visited entry, ∀ source, c.source? name = some source →
    ∃ other, e.source? name = some other ∧ Bares c.lambdas source other

end Compiler

/-- Compiling some statements comes to some templates at most, and no section that calls a lambda stands directly in
the body of a parent tag, neither among the statements nor among the overrides. -/
structure Confined (c : Compiler) (templates : List String) (levels : Nat) (scope : Scope) (chain : List String)
    (overrides : Overrides) (stmts : List Statement) : Prop where
  visits : ∀ name, Visits c levels scope chain overrides stmts name → name ∈ templates
  apart : Apart c.lambdas stmts
  overridden : ∀ override ∈ overrides, Apart c.lambdas override.2

section

variable {c e : Compiler} {start start' : Compiler.Entry} {templates : List String} {levels : Nat} {scope : Scope}
  {chain : List String} {overrides inner : Overrides} {stmt : Statement} {stmts rest body : List Statement}
  {met : List (String × Resolution)} {nodes : List Node} {name indent source : String} {position : Position}
  {frame : Frame}

namespace Confined

theorem later (confined : Confined c templates levels scope chain overrides (stmt :: rest))
    (first : Emits c levels scope chain overrides [stmt] met nodes) :
    Confined c templates levels scope chain overrides rest where
  visits name visits := confined.visits name (.later first visits)
  apart := (apart_cons.mp confined.apart).2.2
  overridden := confined.overridden

theorem opened (confined : Confined c templates (levels + 1) scope chain overrides (stmt :: rest))
    (opens : c.Opens scope overrides stmt position frame inner body) :
    Confined c templates levels (scope.push frame) chain inner body := by
  have own := (apart_cons.mp confined.apart).2.1
  refine ⟨fun name visits => confined.visits name (.inside opens visits), ?_, ?_⟩
  · cases opens with
    | lambda | sect | block => exact own
    | replaced found => exact confined.overridden _ (Dictionary.mem_of_find? found)
  · cases opens with
    | lambda | sect | block => exact confined.overridden
    | replaced => exact fun override member => confined.overridden override (List.mem_of_mem_filter member)

theorem included (confined : Confined c templates (levels + 1) scope chain overrides (stmt :: rest))
    (includes : Compiler.Includes overrides stmt name indent position inner) (loaded : c.source? name = some source)
    (parsed : Statement.ofSource source indent = .ok stmts) (apart : ApartIn c.lambdas source) :
    Confined c templates levels (scope.push .boundary) (chain ++ [name]) inner stmts := by
  refine ⟨fun other visits => confined.visits other (.included includes loaded parsed visits), apart _ _ parsed, ?_⟩
  cases includes with
  | inclusion => exact nofun
  | parent =>
    intro override member
    rcases Dictionary.mem_of_mem_insertAll member with further | direct
    · exact confined.overridden override further
    · obtain ⟨start, inParent⟩ := Compiler.mem_directBlocks direct
      exact fun s occurs => confined.apart s (.inside List.mem_cons_self (.inside inParent occurs))

theorem named (confined : Confined c templates levels scope chain overrides (stmt :: rest))
    (includes : Compiler.Includes overrides stmt name indent position inner) : name ∈ templates :=
  confined.visits name (.here includes)

end Confined

theorem Compiler.Unwraps.resolution?_eq (unwraps : c.Unwraps e start start') (scope : Scope) (name : String) :
    e.resolution? scope name = c.resolution? scope name := by
  unfold Compiler.resolution?
  rw [unwraps.settings]

theorem Compiler.Unwraps.plain (unwraps : c.Unwraps e start start') {inverted : Bool}
    (plain : (!inverted && c.lambdas.contains name) = false) : (!inverted && e.lambdas.contains name) = false := by
  simp only [Bool.and_eq_false_imp, Bool.not_eq_true', List.contains_eq_mem, decide_eq_false_iff_not] at plain ⊢
  exact fun upright member => plain upright (unwraps.lambdas member)

/-- Statements out of their lambdas emit nodes that render the same. -/
theorem Emits.unwrapped (unwraps : c.Unwraps e start start') (apart : c.LambdasApart start)
    (emits : Emits c levels scope chain overrides stmts met nodes)
    (confined : Confined c (c.visited start) levels scope chain overrides stmts) :
    ∃ nodes', Emits e levels scope chain (Dictionary.mapValues (Statement.bare c.lambdas) overrides)
      (Statement.bare c.lambdas stmts) met nodes' ∧ RenderAlike c.lambdas nodes nodes' := by
  induction emits with
  | nil => exact ⟨[], .nil, .refl []⟩
  | text _ after =>
    obtain ⟨behind, emits, alike⟩ := after (confined.later (.text .nil))
    obtain ⟨nodes', whole, joined⟩ := emits_inFront_text emits _
    exact ⟨nodes', whole, (alike.cons _).trans (.of_joined joined.symm)⟩
  | interpolation refers _ after =>
    obtain ⟨behind, emits, alike⟩ := after (confined.later (.interpolation refers .nil))
    rw [← unwraps.resolution?_eq] at refers
    exact ⟨_, .interpolation refers emits, alike.cons _⟩
  | lambda calls emitted _ within after =>
    obtain ⟨inside, inner, alike_inside⟩ := within (confined.opened (.lambda calls))
    obtain ⟨behind, emits, alike⟩ := after (confined.later (.lambda calls emitted .nil))
    -- The body is emitted one level deeper, behind a border; out of the section it needs neither.
    have outside := inner.elsewhere (Nat.le_succ _) (List.Subset.refl _) (Scope.values_push _ .boundary).symm
    obtain ⟨nodes', whole, joined⟩ := outside.inFront emits
    rw [Statement.bare_lambda calls]
    refine ⟨nodes', whole, .trans ?_ (.of_joined joined.symm)⟩
    exact ((RenderAlike.lambda (by simpa using calls) _).trans alike_inside).append alike
  | sect plain refers emitted _ within after =>
    obtain ⟨inside, inner, alike_inside⟩ := within (confined.opened (.sect plain refers))
    obtain ⟨behind, emits, alike⟩ := after (confined.later (.sect plain refers emitted .nil))
    rw [← unwraps.resolution?_eq] at refers
    rw [Statement.bare_sect plain]
    exact ⟨_, .sect (unwraps.plain plain) refers inner emits, (RenderAlike.sect _ _ alike_inside).append alike⟩
  | inclusion fresh loaded parsed emitted _ within after =>
    have named := confined.named .inclusion
    obtain ⟨other, there, bares⟩ := unwraps.included _ named _ loaded
    obtain ⟨stmts', parsed', same⟩ := bares _ _ parsed
    have confined_inside := confined.included .inclusion loaded parsed (apart.included _ named _ loaded)
    obtain ⟨inside, inner, alike_inside⟩ := within confined_inside
    obtain ⟨behind, emits, alike⟩ := after (confined.later (.inclusion fresh loaded parsed emitted .nil))
    exact ⟨_, .inclusion fresh there parsed' (inner.placed rfl same) emits, alike_inside.append alike⟩
  | parent fresh loaded parsed emitted _ within after =>
    have named := confined.named .parent
    obtain ⟨other, there, bares⟩ := unwraps.included _ named _ loaded
    obtain ⟨stmts', parsed', same⟩ := bares _ _ parsed
    have confined_inside := confined.included .parent loaded parsed (apart.included _ named _ loaded)
    obtain ⟨inside, inner, alike_inside⟩ := within confined_inside
    obtain ⟨behind, emits, alike⟩ := after (confined.later (.parent fresh loaded parsed emitted .nil))
    have direct := confined.apart _ (.here List.mem_cons_self)
    rw [Dictionary.mapValues_insertAll, ← Statement.directBlocks_bare direct] at inner
    exact ⟨_, .parent fresh there parsed' (inner.placed rfl same) emits, alike_inside.append alike⟩
  | replaced found emitted _ within after =>
    obtain ⟨inside, inner, alike_inside⟩ := within (confined.opened (.replaced found))
    obtain ⟨behind, emits, alike⟩ := after (confined.later (.replaced found emitted .nil))
    rw [Dictionary.mapValues_erase] at inner
    have found' := (Dictionary.find?_mapValues (Statement.bare c.lambdas) _ _).trans (congrArg _ found)
    exact ⟨_, .replaced found' inner emits, alike_inside.append alike⟩
  | block own emitted _ within after =>
    obtain ⟨inside, inner, alike_inside⟩ := within (confined.opened (.block own))
    obtain ⟨behind, emits, alike⟩ := after (confined.later (.block own emitted .nil))
    have own' := (Dictionary.find?_mapValues (Statement.bare c.lambdas) _ _).trans (congrArg _ own)
    exact ⟨_, .block own' inner emits, alike_inside.append alike⟩

end

namespace Compiler

section

variable {c e : Compiler} {entry entry' : Entry} {p q : Program} {s t : CompileState}

/-- A compilation is confined to the templates that it reports. -/
theorem confined_visited {source : String} {stmts : List Statement} (compiled : c.compileEntry entry = .ok p s)
    (found : c.entrySource? entry = some source) (parsed : Statement.ofSource source "" = .ok stmts)
    (apart : c.LambdasApart entry) :
    Confined c (c.visited entry) c.settings.maxDepth { model := c.schema } [entry.name] [] stmts where
  visits _ visits := mem_visited_of_visits compiled found parsed visits
  apart := apart.own source stmts found parsed
  overridden := nofun

/-- What a program has, its template emits out of its lambdas, but for what the lambdas give back. -/
theorem Unwraps.emitted (unwraps : c.Unwraps e entry entry') (apart : c.LambdasApart entry)
    (compiled : c.compileEntry entry = .ok p s) :
    ∃ other stmts met nodes, e.entrySource? entry' = some other ∧ Statement.ofSource other "" = .ok stmts ∧
      Emits e e.settings.maxDepth { model := e.schema } [entry.name] [] stmts met nodes ∧
        RenderAlike c.lambdas p.nodes nodes := by
  obtain ⟨source, met, found, ⟨stmts, nodes, parsed, emits, rfl⟩, _⟩ := compiles_of_entry compiled
  obtain ⟨other, found', bares⟩ := unwraps.own source found
  obtain ⟨stmts', parsed', same⟩ := bares "" stmts parsed
  obtain ⟨nodes', unwrapped, alike⟩ := emits.unwrapped unwraps apart (confined_visited compiled found parsed apart)
  have placed := unwrapped.placed rfl same
  rw [← unwraps.settings, ← unwraps.schema] at placed
  have joined : RenderAlike c.lambdas (Node.joined nodes) nodes :=
    .of_joined (congrArg List.reverse (Node.foldl_push_joined nodes []))
  exact ⟨other, stmts', met, nodes', found', parsed', placed, joined.trans alike⟩

/-- What is compiled out of its lambdas renders the same, where the lambdas give back the body they are handed. -/
theorem Unwraps.render_eq (unwraps : c.Unwraps e entry entry') (apart : c.LambdasApart entry)
    (compiled : c.compileEntry entry = .ok p s) (compiled' : e.compileEntry entry' = .ok q t) {r : Renderer}
    (gives : r.GivesBack c.lambdas) (model : Value) : r.render p model = r.render q model := by
  obtain ⟨other, stmts, met, nodes, found, parsed, emits, alike⟩ := unwraps.emitted apart compiled
  obtain ⟨other', met', found', ⟨stmts', nodes', parsed', emits', rfl⟩, _⟩ := compiles_of_entry compiled'
  obtain rfl : other' = other := Option.some.inj (found'.symm.trans found)
  obtain rfl := Except.ok.inj (parsed'.symm.trans parsed)
  -- The other program has the nodes of the bare statements, whatever its name is.
  have joined : Node.joined nodes = Node.joined nodes' := joined_eq_of_emits emits emits' rfl
  rw [Renderer.render_eq_result, Renderer.render_eq_result]
  show r.rendered [model] p.nodes = r.rendered [model] (Node.joined nodes')
  rw [← joined, Renderer.rendered_joined]
  exact alike r gives [model] (List.cons_ne_nil _ _)

/-- What compiles does so out of its lambdas, under the same name. -/
theorem Unwraps.compiles (unwraps : c.Unwraps e entry entry') (apart : c.LambdasApart entry)
    (named : entry'.name = entry.name) (compiled : c.compileEntry entry = .ok p s) :
    ∃ q t, e.compileEntry entry' = .ok q t := by
  obtain ⟨other, stmts, met, nodes, found, parsed, emits, _⟩ := unwraps.emitted apart compiled
  rw [← named] at emits
  obtain ⟨t, run, _⟩ := entry_of_compiles found ⟨stmts, nodes, parsed, emits, rfl⟩
  exact ⟨_, t, run⟩

end

end Compiler
end Mustache

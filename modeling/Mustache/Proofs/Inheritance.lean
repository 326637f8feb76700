import Mustache.Proofs.Interpreter
import Mustache.Proofs.Relocation

/-!
# Inheritance

A template that is a single parent may itself be the parent of another, and so on. The nodes of the first are
those of the last one, in which every block gives way to the body that the template nearest to the first has for
it (`nodes_of_chain`). What the last template includes keeps its own blocks.
-/

namespace Mustache
open Text

/-! ## Filling blocks in -/

mutual
/-- A statement in which blocks give way to other bodies; a block for which there is none gives way to its own. -/
def Statement.fill (blocks : Blocks) : Statement → List Statement
  | .block name body _ =>
    match blocks name with
    | some replacement => replacement
    | none => Statement.fillAll blocks body
  | .sect name inverted body position => [.sect name inverted (Statement.fillAll blocks body) position]
  | s => [s]

def Statement.fillAll (blocks : Blocks) : List Statement → List Statement
  | [] => []
  | s :: r => s.fill blocks ++ Statement.fillAll blocks r
end

/-- What the first of some bodies that has blocks of a name has in the last of them. -/
def nearest : List (List Statement) → Blocks
  | [] => .own
  | body :: bodies => (Blocks.ofBody body).within (nearest bodies)

/-- No parent stands in some statements. -/
def Parentless (stmts : List Statement) : Prop := Statement.lacksAll [.parent] stmts = true

instance (stmts : List Statement) : Decidable (Parentless stmts) := inferInstanceAs (Decidable (_ = true))

/-! ## What is filled in -/

theorem Blocks.own_within (blocks : Blocks) : Blocks.own.within blocks = blocks := rfl

theorem Blocks.within_assoc (outer blocks inner : Blocks) :
    (outer.within blocks).within inner = outer.within (blocks.within inner) := by
  funext name
  exact Option.or_assoc

/-- No block or parent stands in what is filled in. -/
def PlainBlocks (blocks : Blocks) : Prop := ∀ name body, blocks name = some body → Plain body

theorem plainBlocks_ofBody {stmts : List Statement}
    (plain : ∀ name body position, .block name body position ∈ stmts → Plain body) :
    PlainBlocks (.ofBody stmts) := by
  intro name replacement found
  induction stmts with
  | nil => cases found
  | cons stmt rest ih =>
    have others := ih fun name body position member => plain name body position (List.mem_cons_of_mem _ member)
    cases stmt with
    | block other body position =>
      rcases Option.or_eq_some_iff.mp found with later | ⟨_, here⟩
      · exact others later
      · by_cases same : name = other
        · obtain rfl : body = replacement := by simpa [same] using here
          exact plain other body position List.mem_cons_self
        · simp [same] at here
    | _ => exact others found

theorem plainBlocks_nearest {bodies : List (List Statement)}
    (plain : ∀ stmts ∈ bodies, ∀ name body position, .block name body position ∈ stmts → Plain body) :
    PlainBlocks (nearest bodies) := by
  induction bodies with
  | nil =>
    intro name replacement found
    cases found
  | cons stmts others ih =>
    intro name replacement found
    rcases Option.or_eq_some_iff.mp found with here | ⟨_, later⟩
    · exact plainBlocks_ofBody (plain stmts List.mem_cons_self) name replacement here
    · exact ih (fun stmts member => plain stmts (List.mem_cons_of_mem _ member)) name replacement later

theorem plain_append {first second : List Statement} (plain : Plain first) (others : Plain second) :
    Plain (first ++ second) := by
  induction first with
  | nil => exact others
  | cons s rest ih =>
    obtain ⟨one, behind⟩ := Statement.lacksAll_cons_iff.mp plain
    exact Statement.lacksAll_cons_iff.mpr ⟨one, ih behind⟩

mutual
theorem plain_fill {blocks : Blocks} (plain : PlainBlocks blocks) :
    ∀ s : Statement, Parentless [s] → Plain (s.fill blocks)
  | .text content, _ => rfl
  | .interpolation name escape position, _ => rfl
  | .inclusion name indent position, _ => rfl
  | .sect name inverted body position, parentless =>
    Statement.lacksAll_sect_iff.mpr
      ⟨by simp, plain_fillAll plain body (Statement.lacksAll_sect_iff.mp parentless).2⟩
  | .parent name body position, parentless => absurd (by decide) (Statement.lacksAll_parent_iff.mp parentless).1
  | .block name body position, parentless => by
    rw [Statement.fill]
    cases found : blocks name with
    | some replacement => exact plain name replacement found
    | none => exact plain_fillAll plain body (Statement.lacksAll_block_iff.mp parentless).2

/-- What has its blocks filled in has neither blocks nor parents any more. -/
theorem plain_fillAll {blocks : Blocks} (plain : PlainBlocks blocks) :
    ∀ stmts : List Statement, Parentless stmts → Plain (Statement.fillAll blocks stmts)
  | [], _ => rfl
  | s :: rest, parentless =>
    plain_append (plain_fill plain s (Statement.lacksAll_cons_iff.mp parentless).1)
      (plain_fillAll plain rest (Statement.lacksAll_cons_iff.mp parentless).2)
end

section

variable {c : Compiler} {levels : Nat} {scope : Scope} {chain : List String} {overrides : Overrides}
  {stmts : List Statement} {met : List (String × Resolution)} {nodes : List Node}

/-- What a block emits is emitted in its place: one level higher, and without its border. -/
theorem Emits.unblocked (within : Emits c levels (scope.push .boundary) chain overrides stmts met nodes) :
    Emits c (levels + 1) scope chain overrides stmts met nodes := by
  refine within.elsewhere (Nat.le_succ levels) (List.Subset.refl chain) ?_
  rw [Scope.values_push]
  rfl

/-- Statements without parents emit the same, without any overrides, when the overrides are filled in. -/
theorem emits_fillAll (emits : Emits c levels scope chain overrides stmts met nodes) (parentless : Parentless stmts)
    (plain : PlainBlocks (Compiler.blocksOf overrides)) :
    Emits c levels scope chain [] (Statement.fillAll (Compiler.blocksOf overrides) stmts) met nodes := by
  induction emits with
  | nil => exact .nil
  | text _ after => exact .text (after (Statement.lacksAll_cons_iff.mp parentless).2 plain)
  | interpolation refers _ after => exact .interpolation refers (after (Statement.lacksAll_cons_iff.mp parentless).2 plain)
  | lambda calls _ _ within after =>
    obtain ⟨one, others⟩ := Statement.lacksAll_cons_iff.mp parentless
    exact .lambda calls (within (Statement.lacksAll_sect_iff.mp one).2 plain) (after others plain)
  | sect ordinary refers _ _ within after =>
    obtain ⟨one, others⟩ := Statement.lacksAll_cons_iff.mp parentless
    exact .sect ordinary refers (within (Statement.lacksAll_sect_iff.mp one).2 plain) (after others plain)
  | inclusion fresh loaded parsed within _ _ after =>
    exact .inclusion fresh loaded parsed within (after (Statement.lacksAll_cons_iff.mp parentless).2 plain)
  | parent =>
    obtain ⟨one, _⟩ := Statement.lacksAll_cons_iff.mp parentless
    exact absurd (by decide) (Statement.lacksAll_parent_iff.mp one).1
  | @replaced _ _ _ overrides name _ _ replacement _ _ _ _ _ found within _ _ after =>
    have there : Compiler.blocksOf overrides name = some replacement := found
    rw [Statement.fillAll, Statement.fill, there]
    -- The name is out of force in its own replacement, in which no block stands anyway.
    exact (within.overridden (plain name replacement there) []).unblocked.append
      (after (Statement.lacksAll_cons_iff.mp parentless).2 plain)
  | @block _ _ _ overrides name _ _ _ _ _ _ _ own _ _ within after =>
    have there : Compiler.blocksOf overrides name = none := own
    obtain ⟨one, others⟩ := Statement.lacksAll_cons_iff.mp parentless
    rw [Statement.fillAll, Statement.fill, there]
    exact (within (Statement.lacksAll_block_iff.mp one).2 plain).unblocked.append (after others plain)

end

/-! ## Chains of parents -/

open Compiler

/-- A source is a single parent, which is a single parent in turn, and so on up to the last source: the bodies of
the parents, outermost first, and the statements of the last source. -/
inductive Inherits (c : Compiler) : String → List (List Statement) → List Statement → Prop where
  | last {source stmts} (parsed : Statement.ofSource source "" = .ok stmts) : Inherits c source [] stmts
  | next {source name body position inner bodies stmts}
      (parsed : Statement.ofSource source "" = .ok [.parent name body position])
      (loaded : c.source? name = some inner) (above : Inherits c inner bodies stmts) :
    Inherits c source (body :: bodies) stmts

/-- What the first template emits the last one emits, with the nearest bodies in place of its blocks. -/
theorem Inherits.emits {c : Compiler} {source : String} {bodies : List (List Statement)} {last : List Statement}
    (inherits : Inherits c source bodies last) {levels : Nat} {scope : Scope} {chain : List String}
    {overrides : Overrides} {stmts : List Statement} {met : List (String × Resolution)} {nodes : List Node}
    (parsed : Statement.ofSource source "" = .ok stmts)
    (emits : Emits c levels scope chain overrides stmts met nodes) (ordered : Dictionary.Ordered overrides) :
    ∃ levels' scope' chain' overrides', Emits c levels' scope' chain' overrides' last met nodes ∧
      scope'.values = scope.values ∧ blocksOf overrides' = (blocksOf overrides).within (nearest bodies) := by
  induction inherits generalizing levels scope chain overrides stmts met nodes with
  | last known =>
    obtain rfl := Except.ok.inj (known.symm.trans parsed)
    refine ⟨levels, scope, chain, overrides, emits, rfl, ?_⟩
    funext name
    exact (Option.or_none ..).symm
  | next known found _ ih =>
    obtain rfl := Except.ok.inj (known.symm.trans parsed)
    cases emits with
    | parent fresh loaded inner_parsed within after =>
      obtain rfl := Option.some.inj (found.symm.trans loaded)
      cases after
      obtain ⟨levels', scope', chain', overrides', emits, values, blocks⟩ :=
        ih inner_parsed within ((Dictionary.ordered_ofList _).insertAll overrides)
      rw [blocksOf_insertAll ordered, Blocks.within_assoc] at blocks
      rw [Scope.values_push] at values
      rw [List.append_nil, List.append_nil]
      exact ⟨levels', scope', chain', overrides', emits, values, blocks⟩

namespace Compiler

section

variable {c : Compiler} {entry : Entry} {source : String} {bodies : List (List Statement)} {last : List Statement}
  {p : Program} {s : CompileState}

/-- A chain of parents emits its last template with the nearest bodies filled in. -/
theorem emits_filled (found : c.entrySource? entry = some source) (inherits : Inherits c source bodies last)
    (plain : ∀ body ∈ bodies, ∀ name inner position, .block name inner position ∈ body → Plain inner)
    (parentless : Parentless last) (run : c.compileEntry entry = .ok p s) :
    ∃ levels scope chain met nodes, Emits c levels scope chain [] (Statement.fillAll (nearest bodies) last) met nodes ∧
      scope.values = [c.schema] ∧ p.nodes = Node.joined nodes := by
  obtain ⟨text, met, there, ⟨stmts, nodes, parsed, emits, rfl⟩, _⟩ := compiles_of_entry run
  obtain rfl := Option.some.inj (found.symm.trans there)
  obtain ⟨levels, scope, chain, overrides, emits, values, blocks⟩ := inherits.emits parsed emits Dictionary.ordered_nil
  rw [blocksOf_nil, Blocks.own_within] at blocks
  have filled := emits_fillAll emits parentless (blocks ▸ plainBlocks_nearest plain)
  rw [blocks] at filled
  exact ⟨levels, scope, chain, met, nodes, filled, values, rfl⟩

/-- The definition nearest to the entry wins. Along a chain of parents whose blocks hold no further blocks, the
nodes of the first template are those of the last one with the nearest body in place of every block, be it compiled
from these statements or from a source that yields them. -/
theorem nodes_of_chain (found : c.entrySource? entry = some source) (inherits : Inherits c source bodies last)
    (plain : ∀ body ∈ bodies, ∀ name inner position, .block name inner position ∈ body → Plain inner)
    (parentless : Parentless last) (run : c.compileEntry entry = .ok p s) :
    (∀ name q t, c.compileStatements (Statement.fillAll (nearest bodies) last) name c.start = .ok q t →
      q.nodes = p.nodes) ∧
    (∀ entry' text stmts q t, c.entrySource? entry' = some text → Statement.ofSource text "" = .ok stmts →
      Statement.unplacedAll stmts =
        Statement.unplacedAll (Statement.joinedAll (Statement.fillAll (nearest bodies) last)) →
      c.compileEntry entry' = .ok q t → q.nodes = p.nodes) := by
  obtain ⟨levels, scope, chain, met, nodes, filled, values, same⟩ :=
    emits_filled found inherits plain parentless run
  constructor
  · intro name q t other
    obtain ⟨met', nodes', emits, rfl, _⟩ := emits_of_compileStatements rfl rfl other
    rw [same]
    exact joined_eq_of_emits emits filled values
  · intro entry' text stmts q t there parsed written other
    obtain ⟨text', met', there', ⟨stmts', nodes', parsed', emits, rfl⟩, _⟩ := compiles_of_entry other
    obtain rfl := Option.some.inj (there.symm.trans there')
    obtain rfl := Except.ok.inj (parsed.symm.trans parsed')
    -- The source has the texts of the bodies and those around them in one piece.
    obtain ⟨whole, joined, same'⟩ := filled.joinedAll (plain_fillAll (plainBlocks_nearest plain) last parentless)
    rw [same, ← same']
    exact joined_eq_of_emits emits (joined.placed rfl written) values

end

def baseSource : String :=
  tagText "$t" ++ tagText "/t" ++ tagText "$o" ++ "(" ++ tagText "$b" ++ tagText "/b" ++ ")" ++ tagText "/o" ++
    tagText ">part"

/-- Of its two blocks the page has the first one too. -/
def midSource : String :=
  tagText "<base" ++ tagText "$b" ++ "1" ++ tagText "/b" ++ tagText "$t" ++ "3" ++ tagText "/t" ++ tagText "/base"

def pageSource : String := tagText "<mid" ++ tagText "$b" ++ tagText "n" ++ tagText "/b" ++ tagText "/mid"

/-- The base with its blocks filled in; the part keeps its own. -/
def filledSource : String := "3(" ++ tagText "n" ++ ")" ++ tagText ">part"

def chainCompiler : Compiler where
  loader := .ofDictionary []
  partials := [("base", .inline baseSource), ("mid", .inline midSource),
    ("part", .inline (tagText "$b" ++ "4" ++ tagText "/b"))]

def baseStatements : List Statement := [
  .block "t" [] ⟨1, 1⟩,
  .block "o" [.text "(", .block "b" [] ⟨1, 20⟩, .text ")"] ⟨1, 13⟩,
  .inclusion "part" "" ⟨1, 39⟩]

def midBody : List Statement := [.block "b" [.text "1"] ⟨1, 10⟩, .block "t" [.text "3"] ⟨1, 23⟩]

def pageBody : List Statement := [.block "b" [.interpolation "n" true ⟨1, 15⟩] ⟨1, 9⟩]

def filledStatements : List Statement := [
  .text "3(",
  .interpolation "n" true ⟨1, 3⟩,
  .text ")",
  .inclusion "part" "" ⟨1, 9⟩]

theorem page_parsed : Statement.ofSource pageSource "" = .ok [.parent "mid" pageBody ⟨1, 1⟩] := by cbv

theorem mid_parsed : Statement.ofSource midSource "" = .ok [.parent "base" midBody ⟨1, 1⟩] := by cbv

theorem base_parsed : Statement.ofSource baseSource "" = .ok baseStatements := by cbv

theorem part_parsed :
    Statement.ofSource (tagText "$b" ++ "4" ++ tagText "/b") "" = .ok [.block "b" [.text "4"] ⟨1, 1⟩] := by cbv

theorem filled_parsed : Statement.ofSource filledSource "" = .ok filledStatements := by cbv

theorem page_inherits : Inherits chainCompiler pageSource [pageBody, midBody] baseStatements :=
  .next page_parsed rfl (.next mid_parsed rfl (.last base_parsed))

/-- What is in force in the base. -/
def chainOverrides : Overrides := Dictionary.insertAll (directBlocks pageBody) (directBlocks midBody)

def chainProgram : Program := ⟨"page", [.text "3(", .interpolation (.search 0 ["n"]) true, .text ")4"]⟩

theorem name_refers (scope : Scope) (same : scope.values = [.any]) :
    chainCompiler.resolution? scope "n" = some ⟨.search 0 ["n"], .any⟩ := by
  have outermost : scope.values = Scope.values { model := .any } := same
  rw [resolution?_congr outermost]
  cbv

/-- The part is the same wherever it is included. -/
theorem part_emits (levels : Nat) (scope : Scope) (chain : List String) :
    Emits chainCompiler (levels + 1) scope chain [] [.block "b" [.text "4"] ⟨1, 1⟩] [] [.text "4"] :=
  .block rfl (.text .nil) .nil

theorem base_emits (levels : Nat) (scope : Scope) (chain : List String) (same : scope.values = [.any])
    (fresh : "part" ∉ chain) :
    Emits chainCompiler (levels + 2) scope chain chainOverrides baseStatements [("n", ⟨.search 0 ["n"], .any⟩)]
      [.text "3", .text "(", .interpolation (.search 0 ["n"]) true, .text ")", .text "4"] := by
  have title : Dictionary.find? "t" chainOverrides = some [.text "3"] := rfl
  have body : Dictionary.find? "b" chainOverrides = some [.interpolation "n" true ⟨1, 15⟩] := rfl
  have outer : Dictionary.find? "o" chainOverrides = none := rfl
  have refers := name_refers ((scope.push .boundary).push .boundary) same
  have within : Emits chainCompiler (levels + 1) (scope.push .boundary) chain chainOverrides
      [.text "(", .block "b" [] ⟨1, 20⟩, .text ")"] [("n", ⟨.search 0 ["n"], .any⟩)]
      [.text "(", .interpolation (.search 0 ["n"]) true, .text ")"] :=
    .text (.replaced body (.interpolation refers .nil) (.text .nil))
  have behind : Emits chainCompiler (levels + 2) scope chain chainOverrides [.inclusion "part" "" ⟨1, 39⟩] []
      [.text "4"] := .inclusion fresh rfl part_parsed (part_emits levels _ _) .nil
  exact .replaced title (.text .nil) (.block outer within behind)

theorem filled_emits (levels : Nat) (scope : Scope) (chain : List String) (same : scope.values = [.any])
    (fresh : "part" ∉ chain) :
    Emits chainCompiler (levels + 2) scope chain [] filledStatements [("n", ⟨.search 0 ["n"], .any⟩)]
      [.text "3(", .interpolation (.search 0 ["n"]) true, .text ")", .text "4"] :=
  .text (.interpolation (name_refers scope same) (.text (.inclusion fresh rfl part_parsed (part_emits _ _ _) .nil)))

theorem chain_compiles : ∃ s, chainCompiler.compileEntry (.source pageSource "page") = .ok chainProgram s := by
  have inner := base_emits 60 ((Scope.push { model := .any } .boundary).push .boundary) ["page", "mid", "base"] rfl
    (by decide)
  have outer : Emits chainCompiler 64 { model := .any } ["page"] [] [.parent "mid" pageBody ⟨1, 1⟩] _ _ :=
    .parent (by decide) rfl mid_parsed (.parent (by decide) rfl base_parsed inner .nil) .nil
  have compiles : Compiles chainCompiler pageSource "page" _ ⟨"page", _⟩ := ⟨_, _, page_parsed, outer, rfl⟩
  obtain ⟨t, run, _⟩ := compile_of_compiles compiles
  exact ⟨t, run⟩

theorem filled_compiles : ∃ q t, chainCompiler.compileEntry (.source filledSource "filled") = .ok q t := by
  have emits := filled_emits 62 { model := .any } ["filled"] rfl (by decide)
  have compiles : Compiles chainCompiler filledSource "filled" _ ⟨"filled", _⟩ := ⟨_, _, filled_parsed, emits, rfl⟩
  obtain ⟨t, run, _⟩ := compile_of_compiles compiles
  exact ⟨_, t, run⟩

/-- The page has its own body and the title from the middle. -/
theorem page_has_nodes_of_filled :
    ∃ s q t, chainCompiler.compileEntry (.source pageSource "page") = .ok chainProgram s ∧
      Inherits chainCompiler pageSource [pageBody, midBody] baseStatements ∧
      (∀ body ∈ [pageBody, midBody], ∀ name inner position, .block name inner position ∈ body → Plain inner) ∧
      Parentless baseStatements ∧
      Statement.unplacedAll filledStatements =
        Statement.unplacedAll (Statement.joinedAll (Statement.fillAll (nearest [pageBody, midBody]) baseStatements)) ∧
      chainCompiler.compileEntry (.source filledSource "filled") = .ok q t ∧ q.nodes = chainProgram.nodes := by
  obtain ⟨s, run⟩ := chain_compiles
  obtain ⟨q, t, other⟩ := filled_compiles
  have plain : ∀ body ∈ [pageBody, midBody], ∀ name inner position,
      .block name inner position ∈ body → Plain inner := by
    intro body among name inner position there
    rcases List.mem_pair.mp among with rfl | rfl
    · obtain ⟨rfl, rfl, rfl⟩ := Statement.block.inj (List.mem_singleton.mp there)
      decide
    · rcases List.mem_pair.mp there with same | same
      · obtain ⟨rfl, rfl, rfl⟩ := Statement.block.inj same
        decide
      · obtain ⟨rfl, rfl, rfl⟩ := Statement.block.inj same
        decide
  have parentless : Parentless baseStatements := by decide
  have written : Statement.unplacedAll filledStatements =
      Statement.unplacedAll (Statement.joinedAll (Statement.fillAll (nearest [pageBody, midBody]) baseStatements)) := by
    rfl
  have found : chainCompiler.entrySource? (.source pageSource "page") = some pageSource := rfl
  have same := (nodes_of_chain found page_inherits plain parentless run).2
    (.source filledSource "filled") filledSource filledStatements q t rfl filled_parsed written other
  exact ⟨s, q, t, run, page_inherits, plain, parentless, written, other, same⟩

end Compiler
end Mustache

import Mustache.Proofs.BareTokens
import Mustache.Proofs.NormalTexts
import Mustache.Proofs.Unwrapping

/-!
# Sources taken out of their lambdas

Every text can be written so that its statements are out of their lambdas (`bares_bareSource`), since tags that are
silenced stand alone where they did and say nothing. So every template that compiles has a counterpart without lambdas
that compiles too, and there is no telling them apart where the lambdas give back what they are handed
(`Compiler.lambdas_leave_no_trace`).
-/

namespace Mustache
open Text

/-! ## Joined statements -/

namespace Statement

variable {stmt : Statement} {stmts before : List Statement}

theorem push_push_text (before : List Statement) (a b : String) :
    push (push before (.text a)) (.text b) = push before (.text (a ++ b)) :=
  congrArg Outline.stmts (Outline.add_add_text ⟨before, []⟩ a b)

theorem push_cases (stmts : List Statement) (stmt : Statement) : push stmts stmt = stmt :: stmts ∨
    ∃ before content rest, stmts = .text before :: rest ∧ stmt = .text content := by
  cases stmts with
  | nil => exact .inl rfl
  | cons s rest => cases s <;> cases stmt <;> first | exact .inl rfl | exact .inr ⟨_, _, _, rfl, rfl⟩

theorem foldl_push_inFront (stmt : Statement) (stmts before : List Statement) :
    (inFront stmt stmts).foldl push before = (stmt :: stmts).foldl push before := by
  cases stmt with
  | text a =>
    rcases inFront_text_cases a stmts with ⟨b, rest, rfl⟩ | apart
    · exact congrArg (rest.foldl push) (push_push_text before a b).symm
    · rw [apart]
  | _ => rfl

theorem foldl_push_joinedAll (stmts before : List Statement) :
    (joinedAll stmts).foldl push before = (stmts.map joined).foldl push before := by
  induction stmts generalizing before with
  | nil => rfl
  | cons s rest ih =>
    rw [joinedAll, foldl_push_inFront]
    exact ih _

/-- No two of them are neighbours and both texts. -/
def Settled (stmts : List Statement) : Prop :=
  stmts.IsChain fun a b => TextTree.text? a = none ∨ TextTree.text? b = none

theorem Settled.inFront (settled : Settled stmts) (stmt : Statement) : Settled (inFront stmt stmts) := by
  cases stmts with
  | nil => cases stmt <;> exact .singleton _
  | cons s rest =>
    obtain ⟨next, others⟩ := List.isChain_cons.mp settled
    cases stmt <;> cases s <;>
      first
      | exact List.isChain_cons_cons.mpr ⟨.inl rfl, settled⟩
      | exact List.isChain_cons_cons.mpr ⟨.inr rfl, settled⟩
      | exact List.isChain_cons.mpr ⟨fun b member => .inr ((next b member).resolve_left nofun), others⟩

theorem settled_joinedAll (stmts : List Statement) : Settled (joinedAll stmts) := by
  induction stmts with
  | nil => exact .nil
  | cons s rest ih => exact ih.inFront _

theorem Settled.foldl_push (settled : Settled (before.reverse ++ stmts)) :
    stmts.foldl push before = stmts.reverse ++ before := by
  induction stmts generalizing before with
  | nil => rfl
  | cons s rest ih =>
    have apart : ∀ b ∈ before.head?, TextTree.text? s = none ∨ TextTree.text? b = none := by
      intro b first
      obtain ⟨others, rfl⟩ := List.head?_eq_some_iff.mp first
      rw [List.reverse_cons, List.append_assoc] at settled
      have both : Settled (b :: s :: rest) := (List.isChain_append.mp settled).2.1
      exact (List.isChain_cons_cons.mp both).1.symm
    rw [List.foldl_cons, joins_push.other apart, ih (by simpa using settled)]
    simp

/-- Statements are joined as they are pushed. -/
theorem joinedAll_eq (stmts : List Statement) : joinedAll stmts = ((stmts.map joined).foldl push []).reverse := by
  rw [← foldl_push_joinedAll, Settled.foldl_push (settled_joinedAll stmts)]
  simp

theorem unwrapAll_append (lambdas : List String) (stmts more : List Statement) :
    unwrapAll lambdas (stmts ++ more) = unwrapAll lambdas stmts ++ unwrapAll lambdas more := by
  induction stmts with
  | nil => rfl
  | cons s rest ih => rw [List.cons_append, unwrapAll, ih, unwrapAll, List.append_assoc]

/-- What statements, listed newest first, are out of their lambdas, oldest first and not joined yet. -/
def bareParts (lambdas : List String) (stmts : List Statement) : List Statement :=
  (unwrapAll lambdas stmts.reverse).map joined

theorem bareParts_cons (lambdas : List String) (stmt : Statement) (stmts : List Statement) :
    bareParts lambdas (stmt :: stmts) = bareParts lambdas stmts ++ (unwrap lambdas stmt).map joined := by
  simp [bareParts, unwrapAll_append, unwrapAll]

theorem foldl_bareParts (lambdas : List String) (stmts : List Statement) :
    ((bareParts lambdas stmts).foldl push []).reverse = bare lambdas stmts.reverse := (joinedAll_eq _).symm

end Statement

/-! ## Outlines of silenced lines -/

/-- A tag of a section that calls a lambda. -/
def OpenTag.isLambda (lambdas : List String) (t : OpenTag) : Bool :=
  match t.kind with
  | .sect false => lambdas.contains t.name
  | _ => false

namespace Outline

variable {lambdas : List String} {d : Delimiters} {o next : Outline} {indent name : String} {line : Line}
  {position : Position} {t : LocatedToken} {tag : OpenTag} {stmt : Statement} {stmts more : List Statement}

def extend (o : Outline) (stmts : List Statement) : Outline := stmts.foldl add o

/-- Open tags but for those of lambdas: what is before such a tag, what is inside goes on. -/
def bareAround (lambdas : List String) : List (OpenTag × List Statement) → Outline
  | [] => {}
  | (tag, before) :: rest =>
    let outer := (bareAround lambdas rest).extend (Statement.bareParts lambdas before)
    if tag.isLambda lambdas then outer else outer.enter tag

/-- An outline out of its lambdas. -/
def bare (lambdas : List String) (o : Outline) : Outline :=
  (bareAround lambdas o.opened).extend (Statement.bareParts lambdas o.stmts)

/-- Whether the open tags call lambdas, innermost first. -/
def calls (lambdas : List String) (o : Outline) : List Bool := o.opened.map (·.1.isLambda lambdas)

theorem extend_append (o : Outline) (stmts more : List Statement) :
    o.extend (stmts ++ more) = (o.extend stmts).extend more := List.foldl_append

theorem extend_eq (o : Outline) (stmts : List Statement) :
    o.extend stmts = { o with stmts := stmts.foldl Statement.push o.stmts } := by
  induction stmts generalizing o with
  | nil => rfl
  | cons s rest ih => exact ih (o.add s)

/-- A statement without a body is added as it is. -/
theorem extend_bareParts_push (leaf : Statement.unwrap lambdas stmt = [stmt]) (plain : stmt.joined = stmt) (o : Outline)
    (stmts : List Statement) : o.extend (Statement.bareParts lambdas (Statement.push stmts stmt)) =
      (o.extend (Statement.bareParts lambdas stmts)).add stmt := by
  have apart : o.extend (Statement.bareParts lambdas (stmt :: stmts)) =
      (o.extend (Statement.bareParts lambdas stmts)).add stmt := by
    rw [Statement.bareParts_cons, leaf, extend_append, List.map_singleton, plain]
    rfl
  rcases Statement.push_cases stmts stmt with front | ⟨before, content, rest, rfl, rfl⟩
  · rw [front, apart]
  · rw [Statement.push, Statement.bareParts_cons, Statement.bareParts_cons, extend_append, extend_append]
    exact (add_add_text _ before content).symm

theorem bare_add (leaf : Statement.unwrap lambdas stmt = [stmt]) (plain : stmt.joined = stmt) (o : Outline) :
    (o.add stmt).bare lambdas = (o.bare lambdas).add stmt := extend_bareParts_push leaf plain _ _

theorem bare_enter (o : Outline) (tag : OpenTag) :
    (o.enter tag).bare lambdas = if tag.isLambda lambdas then o.bare lambdas else (o.bare lambdas).enter tag := rfl

theorem unwrap_close (stmts : List Statement) : Statement.unwrap lambdas (tag.close stmts) =
    if tag.isLambda lambdas then Statement.unwrapAll lambdas stmts
    else [tag.close (Statement.unwrapAll lambdas stmts)] := by
  obtain ⟨kind, name, position⟩ := tag
  cases kind with
  | sect inverted => cases inverted <;> simp [OpenTag.close, OpenTag.isLambda, Statement.unwrap]
  | parent | block => simp [OpenTag.close, OpenTag.isLambda, Statement.unwrap]

theorem joined_close (tag : OpenTag) (stmts : List Statement) :
    (tag.close stmts).joined = tag.close (Statement.joinedAll stmts) := by
  obtain ⟨kind, name, position⟩ := tag
  cases kind <;> rfl

theorem push_close (tag : OpenTag) (stmts before : List Statement) :
    Statement.push before (tag.close stmts) = tag.close stmts :: before :=
  Statement.joins_push.other fun _ _ => .inl (close_eq tag stmts).1

/-- An end tag adds what is between it and the open tag. -/
theorem leave_extend (o : Outline) (tag : OpenTag) (stmts : List Statement) (position : Position) :
    ((o.enter tag).extend stmts).leave tag.name position =
      .ok (o.add (tag.close (stmts.foldl Statement.push []).reverse)) := by
  rw [extend_eq]
  exact if_pos rfl

/-- The end tag of a section that calls a lambda changes nothing, and any other is an end tag still. -/
theorem bare_leave (left : o.leave name position = .ok next) :
    next.calls lambdas = (o.calls lambdas).tail ∧
      if (o.calls lambdas).headD false then next.bare lambdas = o.bare lambdas
      else (o.bare lambdas).leave name position = .ok (next.bare lambdas) := by
  obtain ⟨stmts, opened⟩ := o
  unfold leave at left
  cases opened with
  | nil => cases left
  | cons entry rest =>
    obtain ⟨tag, before⟩ := entry
    by_cases same : tag.name = name
    · obtain rfl : _ = next := by simpa [same] using left
      subst same
      refine ⟨rfl, ?_⟩
      rw [push_close, bare, bare, Statement.bareParts_cons, unwrap_close, extend_append]
      cases lambda : tag.isLambda lambdas with
      | true => simp [calls, bareAround, lambda, Statement.bareParts]
      | false =>
        -- The open tag is there too, and around the parts that are joined to be its body.
        simp only [calls, bareAround, lambda, List.map_cons, List.headD_cons, Bool.false_eq_true, if_false]
        rw [leave_extend, Statement.foldl_bareParts, joined_close]
        rfl
    · simp [same] at left

/-- A tag that is valid or refused is so whatever the outline is. -/
theorem bare_readTag {kind : TagKind} (read : o.readTag indent line position name kind = .ok next) :
    next.calls lambdas = (Token.tag name kind).opensBehind lambdas (o.calls lambdas) ∧
      if (Token.tag name kind).ofLambda lambdas (o.calls lambdas) then next.bare lambdas = o.bare lambdas
      else (o.bare lambdas).readTag indent line position name kind = .ok (next.bare lambdas) := by
  cases kind with
  | comment =>
    cases read
    exact ⟨rfl, rfl⟩
  | interpolation | unescaped =>
    obtain ⟨valid, rfl⟩ := withReference_ok read
    refine ⟨rfl, ?_⟩
    exact (if_pos valid).trans (congrArg _ (bare_add rfl rfl o).symm)
  | sectionStart =>
    obtain ⟨valid, rfl⟩ := withReference_ok read
    refine ⟨rfl, ?_⟩
    rw [bare_enter, Token.ofLambda, OpenTag.isLambda]
    cases lambdas.contains name with
    | true => rfl
    | false => exact if_pos valid
  | invertedStart =>
    obtain ⟨valid, rfl⟩ := withReference_ok read
    exact ⟨rfl, if_pos valid⟩
  | parentStart | blockStart =>
    cases read
    exact ⟨rfl, rfl⟩
  | inclusion =>
    cases read
    exact ⟨rfl, congrArg _ (bare_add rfl rfl o).symm⟩
  | scopeEnd => exact bare_leave read

/-- A token is read, if it is not silenced, where the outline is out of its lambdas. -/
theorem bare_readToken (read : o.readToken indent line t = .ok next) :
    next.calls lambdas = t.token.opensBehind lambdas (o.calls lambdas) ∧
      (o.bare lambdas).readToken indent line (bareToken lambdas d (o.calls lambdas) t) = .ok (next.bare lambdas) := by
  obtain ⟨token, position, start, raw⟩ := t
  cases token with
  | text content | newline lineBreak =>
    cases read
    exact ⟨rfl, congrArg _ (bare_add rfl rfl o).symm⟩
  | delimiters previous next =>
    cases read
    exact ⟨rfl, rfl⟩
  | tag name kind =>
    obtain ⟨behind, same⟩ := bare_readTag read
    refine ⟨behind, ?_⟩
    cases silent : (Token.tag name kind).ofLambda lambdas (o.calls lambdas) with
    | true =>
      rw [silent, if_pos rfl] at same
      rw [bareToken, if_pos silent, same]
      rfl
    | false =>
      rw [silent, if_neg Bool.false_ne_true] at same
      rw [bareToken, silent, if_neg Bool.false_ne_true]
      exact same

end Outline

/-- A tag is silenced by a tag, and both contribute to the output of their line. -/
theorem Line.emits_bareToken (lambdas : List String) (line : Line) (d d' : Delimiters) (opened opened' : List Bool)
    (t : LocatedToken) :
    (line.bare lambdas d opened).emits (bareToken lambdas d' opened' t) = line.emits t := by
  rw [emits, emits, standalone_bare]
  rcases bareToken_cases lambdas d' opened' t with same | ⟨⟨name, kind, tag, _⟩, silenced⟩
  · rw [same]
  · simp [silenced, LocatedToken.silenced, Token.isTag, tag]

/-- What does not contribute to the output of its line opens nothing. -/
theorem Token.opensBehind_of_text {token : Token} (no_tag : token.isTag = false) (opened : List Bool) :
    token.opensBehind lambdas opened = opened := by
  cases token with
  | tag | delimiters => cases no_tag
  | text | newline => rfl

namespace Outline

variable {lambdas : List String} {d : Delimiters} {o next : Outline} {indent : String} {line line' : Line}
  {tokens : List LocatedToken} {lines : List Line}

theorem bare_readTokens (keeps : ∀ d opened t, line'.emits (bareToken lambdas d opened t) = line.emits t)
    (same : readToken indent line' = readToken indent line) (d : Delimiters)
    (read : (tokens.filter line.emits).foldlM (readToken indent line) o = .ok next) :
    next.calls lambdas = openedAfter lambdas (o.calls lambdas) tokens ∧
      ((bareTokens lambdas d (o.calls lambdas) tokens).filter line'.emits).foldlM (readToken indent line')
        (o.bare lambdas) = .ok (next.bare lambdas) := by
  induction tokens generalizing d o with
  | nil =>
    cases read
    exact ⟨rfl, rfl⟩
  | cons t rest ih =>
    rw [openedAfter, List.foldl_cons, bareTokens]
    cases emitted : line.emits t with
    | true =>
      rw [List.filter_cons_of_pos emitted, foldlM_cons_eq_ok] at read
      obtain ⟨u, first, later⟩ := read
      obtain ⟨behind, here⟩ := bare_readToken (d := d) first
      obtain ⟨calls, others⟩ := ih (activeAfter d [t]) later
      rw [behind] at calls others
      rw [List.filter_cons_of_pos ((keeps d _ t).trans emitted), foldlM_cons_eq_ok]
      exact ⟨calls, _, same ▸ here, others⟩
    | false =>
      rw [List.filter_cons_of_neg (by simp [emitted])] at read
      rw [List.filter_cons_of_neg (by simp [keeps, emitted])]
      -- Only tags open or end anything, and they all contribute.
      have no_tag : t.token.isTag = false := by
        simp only [Line.emits, Bool.or_eq_false_iff] at emitted
        exact emitted.2
      rw [Token.opensBehind_of_text no_tag]
      exact ih (activeAfter d [t]) read

theorem bare_readLine (d : Delimiters) (read : o.readLine indent line = .ok next) :
    next.calls lambdas = openedAfter lambdas (o.calls lambdas) line.tokens ∧
      (o.bare lambdas).readLine indent (line.bare lambdas d (o.calls lambdas)) = .ok (next.bare lambdas) := by
  have alone := line.standalone_bare lambdas d (o.calls lambdas)
  have same : readToken indent (line.bare lambdas d (o.calls lambdas)) = readToken indent line :=
    readToken_congr alone fun _ => congrArg _ (line.indent_bare lambdas d (o.calls lambdas))
  have keeps (d' : Delimiters) (opened : List Bool) (t : LocatedToken) :=
    line.emits_bareToken lambdas d d' (o.calls lambdas) opened t
  unfold readLine at read ⊢
  dsimp only at read ⊢
  rw [alone]
  split at read
  · next unindented =>
    rw [if_pos unindented]
    exact bare_readTokens keeps same d read
  · next indented =>
    rw [if_neg indented, ← bare_add rfl rfl]
    exact bare_readTokens keeps same d read

theorem bare_of_closed (closed : o.opened = []) :
    (o.bare lambdas).opened = [] ∧ (o.bare lambdas).stmts.reverse = Statement.bare lambdas o.stmts.reverse := by
  rw [bare, closed, extend_eq]
  exact ⟨rfl, Statement.foldl_bareParts _ _⟩

theorem bare_readLines (d : Delimiters) (read : lines.foldlM (readLine indent) o = .ok next) :
    (bareLines lambdas d (o.calls lambdas) lines).foldlM (readLine indent) (o.bare lambdas) =
      .ok (next.bare lambdas) := by
  induction lines generalizing d o with
  | nil =>
    cases read
    rfl
  | cons line rest ih =>
    obtain ⟨u, first, later⟩ := foldlM_cons_eq_ok.mp read
    obtain ⟨behind, here⟩ := bare_readLine d first
    have others := ih (activeAfter d line.tokens) later
    rw [behind] at others
    exact foldlM_cons_eq_ok.mpr ⟨_, here, others⟩

end Outline

/-- The silenced text of a template says what its statements are out of their lambdas. -/
theorem bares_bareSource (lambdas : List String) (source : String) :
    Bares lambdas source (bareSource lambdas source) := by
  intro indent stmts parsed
  obtain ⟨clean, read⟩ := ofSource_eq_ok.mp parsed
  obtain ⟨o, folded, closed, rfl⟩ := readLines_eq_ok.mp read
  obtain ⟨clean', lines⟩ := layout_bareSource lambdas clean
  have silenced : readLines indent (bareLines lambdas .standard [] (layout source).lines) =
      .ok (Statement.bare lambdas o.stmts.reverse) :=
    readLines_eq_ok.mpr ⟨_, Outline.bare_readLines .standard folded, Outline.bare_of_closed closed⟩
  rw [ofSource_eq_readLines clean']
  refine ok_of_unplacedResult ?_ silenced
  have same := congrArg (List.map Line.ofTokens) lines
  rw [List.map_map, List.map_map] at same
  rw [readLines_said, readLines_said]
  exact congrArg (readLines indent) same

example : bareSource ["b"] "\x7b\x7b#b\x7d\x7dx\x7b\x7b/b\x7d\x7d" =
    "\x7b\x7b=\x7b\x7b \x7d\x7d=\x7d\x7dx\x7b\x7b=\x7b\x7b \x7d\x7d=\x7d\x7d" := by cbv

/-! ## Programs without lambdas -/

/-- Entries that are made of keys, where all of one key are made alike. -/
theorem Dictionary.find?_filterMap {α : Type} (f : String → Option α) (key : String) (keys : List String) :
    find? key (keys.filterMap fun k => (f k).map (k, ·)) = if key ∈ keys then f key else none := by
  induction keys with
  | nil => rfl
  | cons k rest ih =>
    by_cases same : key = k
    · subst same
      cases made : f key <;> simp_all [find?]
    · cases made : f k <;> simp [made, find?, same, ih]

namespace Compiler

variable {c : Compiler} {entry : Entry} {p : Program} {s : CompileState}

/-- What is registered for a template whose text is known: that text with the tags of lambdas silenced. -/
def bareTemplate? (c : Compiler) (name : String) : Option TemplateSource :=
  (c.source? name).map fun source => .inline (bareSource c.lambdas source)

/-- A compiler without lambdas, in which the templates that an entry includes are registered, silenced. -/
def bare (c : Compiler) (entry : Entry) : Compiler :=
  { c with
    partials := Dictionary.ofList ((c.visited entry).filterMap fun name => (c.bareTemplate? name).map (name, ·))
    lambdas := [] }

theorem source?_bare {name source : String} (visited : name ∈ c.visited entry) (found : c.source? name = some source) :
    (c.bare entry).source? name = some (bareSource c.lambdas source) := by
  have registered : Dictionary.find? name (c.bare entry).partials = some (.inline (bareSource c.lambdas source)) := by
    simp only [bare, Dictionary.ofList]
    rw [Dictionary.find?_insertAll, ← List.filterMap_reverse, Dictionary.find?_filterMap]
    simp [visited, bareTemplate?, found, Dictionary.find?]
  simp only [source?, registered]

theorem unwraps_bare {source : String} (found : c.entrySource? entry = some source) :
    c.Unwraps (c.bare entry) entry (.source (bareSource c.lambdas source) entry.name) where
  settings := rfl
  schema := rfl
  lambdas := List.nil_subset _
  own other there := by
    obtain rfl := Option.some.inj (found.symm.trans there)
    exact ⟨_, rfl, bares_bareSource _ _⟩
  included name visited source found := ⟨_, source?_bare visited found, bares_bareSource _ _⟩

/-- Lambdas that give back the body they are handed leave no trace, where no section that calls one stands directly in
the body of a parent tag: a program whose template, and all that are included in it, are taken out of the sections that
call lambdas has the same result for every model. And there is such a program, which has no lambdas. -/
theorem lambdas_leave_no_trace (compiled : c.compileEntry entry = .ok p s) (apart : c.LambdasApart entry) :
    (∀ (e : Compiler) entry' q t, c.Unwraps e entry entry' → e.compileEntry entry' = .ok q t →
      ∀ r : Renderer, r.GivesBack c.lambdas → ∀ model, r.render p model = r.render q model) ∧
    ∃ (e : Compiler) (entry' : Entry) (q : Program) (t : CompileState),
      c.Unwraps e entry entry' ∧ e.lambdas = [] ∧ e.compileEntry entry' = .ok q t := by
  constructor
  · exact fun e entry' q t unwraps compiled' r gives => unwraps.render_eq apart compiled compiled' gives
  · obtain ⟨source, _, found, _⟩ := compiles_of_entry compiled
    obtain ⟨q, t, compiled'⟩ := (unwraps_bare found).compiles apart rfl compiled
    exact ⟨c.bare entry, _, q, t, unwraps_bare found, rfl, compiled'⟩

/-- A template that hands an inclusion to a lambda, and an override of another one. -/
def boldSource : String :=
  tagText "#b" ++ tagText ">p" ++ tagText "/b" ++
    tagText "<q" ++ tagText "$r" ++ tagText "#b" ++ "x" ++ tagText "/b" ++ tagText "/r" ++ tagText "/q"

def boldStatements : List Statement :=
  [.sect "b" false [.inclusion "p" "" ⟨1, 7⟩] ⟨1, 1⟩,
    .parent "q" [.block "r" [.sect "b" false [.text "x"] ⟨1, 31⟩] ⟨1, 25⟩] ⟨1, 19⟩]

def boldPartial : String := tagText "#xs" ++ tagText "#b" ++ tagText "n" ++ tagText "/b" ++ tagText "/xs"

def boldParent : String := tagText "$r" ++ tagText "/r"

def boldCompiler : Compiler where
  loader := .ofDictionary []
  partials := [("p", .inline boldPartial), ("q", .inline boldParent)]
  lambdas := ["b"]

def boldProgram : Program where
  name := "main"
  nodes := [.lambda "b" [.sect (.search 0 ["xs"]) .dynamic [.lambda "b" [.interpolation (.search 0 ["n"]) true]]],
    .lambda "b" [.text "x"]]

/-- A renderer whose one lambda gives back what it is handed. -/
def plainRenderer : Renderer where
  lambdas := [("b", .wrap fun _ body => body)]

theorem bold_parsed : Statement.ofSource boldSource "" = .ok boldStatements := by cbv

theorem visited_bold : boldCompiler.visited (.source boldSource "main") = ["p", "q"] := by cbv

theorem bold_apart : boldCompiler.LambdasApart (.source boldSource "main") where
  own source stmts found parsed := by
    obtain rfl := Option.some.inj found
    obtain rfl := Except.ok.inj (bold_parsed.symm.trans parsed)
    simp [boldStatements, boldCompiler, apart_cons, apart_nil, Statement.Apart, Statement.body, Statement.isLambda]
  included name visited source found := by
    have first : boldCompiler.source? "p" = some boldPartial := by cbv
    have second : boldCompiler.source? "q" = some boldParent := by cbv
    have tokens : (tokenize boldPartial).tokens.map (·.token) = [.tag "xs" .sectionStart, .tag "b" .sectionStart,
      .tag "n" .interpolation, .tag "b" .scopeEnd, .tag "xs" .scopeEnd] := by cbv
    have tokens' : (tokenize boldParent).tokens.map (·.token) = [.tag "r" .blockStart, .tag "r" .scopeEnd] := by cbv
    rw [visited_bold, List.mem_pair] at visited
    refine apartIn_of_parentless _ fun other => ?_
    rcases visited with rfl | rfl
    · obtain rfl := Option.some.inj (first.symm.trans found)
      simp [tokens]
    · obtain rfl := Option.some.inj (second.symm.trans found)
      simp [tokens']

theorem bold_leaves_no_trace :
    (∃ s, boldCompiler.compileEntry (.source boldSource "main") = .ok boldProgram s) ∧
      boldCompiler.LambdasApart (.source boldSource "main") ∧ plainRenderer.GivesBack boldCompiler.lambdas ∧
        ∃ (e : Compiler) (entry' : Entry) (q : Program) (t : CompileState),
          e.lambdas = [] ∧ e.compileEntry entry' = .ok q t ∧
            ∀ model, plainRenderer.render boldProgram model = plainRenderer.render q model := by
  have compiled : ∃ s, boldCompiler.compileEntry (.source boldSource "main") = .ok boldProgram s :=
    exists_of_program? (by cbv)
  have gives : plainRenderer.GivesBack boldCompiler.lambdas := by
    intro name listed
    obtain rfl := List.mem_singleton.mp listed
    exact ⟨_, rfl, fun _ _ => rfl⟩
  refine ⟨compiled, bold_apart, gives, ?_⟩
  obtain ⟨s, compiled⟩ := compiled
  obtain ⟨same, e, entry', q, t, unwraps, none, compiled'⟩ := lambdas_leave_no_trace compiled bold_apart
  exact ⟨e, entry', q, t, none, compiled', same e entry' q t unwraps compiled' plainRenderer gives⟩

end Compiler
end Mustache

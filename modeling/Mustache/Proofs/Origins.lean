import Mustache.Proofs.Failures
import Mustache.Proofs.Nesting
import Mustache.Proofs.SourceOrder

/-!
# Where unresolved references are written

The error of an unresolved reference has the position of its tag and the chain of the templates under compilation.
One of these templates has that tag at that position (`Compiler.unresolved_in_chain`): the last one, unless an
override brought the tag there. Such a tag stands in a block in the body of a parent tag, which includes the template
that is next in the chain (`Statement.StandsIn.lent`), and the chain may go on from there.
-/

namespace Mustache
open Text

/-! ## Statements within statements -/

namespace Statement

/-- The statements between a tag that opens a scope and its end tag. -/
def body : Statement → List Statement
  | .sect _ _ body _ | .parent _ body _ | .block _ body _ => body
  | _ => []

/-- A statement is one of some statements, or stands in the body of one. -/
inductive Occurs (stmt : Statement) : List Statement → Prop where
  | here {stmts} (member : stmt ∈ stmts) : Occurs stmt stmts
  | inside {outer stmts} (member : outer ∈ stmts) (within : Occurs stmt outer.body) : Occurs stmt stmts

/-- A statement stands in the statements of a template behind which so many others are open: directly, if there are
none, or in a block that a parent tag for the next of them lends it. -/
inductive StandsIn (stmt : Statement) (stmts : List Statement) : List String → Prop where
  | own (occurs : Occurs stmt stmts) : StandsIn stmt stmts []
  | lent {next later body position name inner start} (parent : Occurs (.parent next body position) stmts)
      (block : .block name inner start ∈ body) (occurs : Occurs stmt inner) : StandsIn stmt stmts (next :: later)

section

variable {stmt outer : Statement} {stmts inner inParent : List Statement} {after : List String} {name next : String}
  {start position : Position}

theorem Occurs.trans (first : Occurs stmt outer.body) (second : Occurs outer stmts) : Occurs stmt stmts := by
  induction second with
  | here member => exact .inside member first
  | inside member _ within => exact .inside member within

theorem StandsIn.in_body (stands : StandsIn outer stmts after) (member : stmt ∈ outer.body) :
    StandsIn stmt stmts after := by
  cases stands with
  | own occurs => exact .own (.trans (.here member) occurs)
  | lent parent block occurs => exact .lent parent block (.trans (.here member) occurs)

theorem StandsIn.occurs (stands : StandsIn stmt stmts after) : Occurs stmt stmts := by
  cases stands with
  | own occurs => exact occurs
  | @lent next _ inParent position _ _ _ parent block occurs =>
    have inBlock : Occurs stmt (body (.parent next inParent position)) := .inside block occurs
    exact inBlock.trans parent

/-- What stands in a block of a parent tag is lent to the template of the tag, or has been lent before. -/
theorem StandsIn.lend (stands : StandsIn (.parent next inParent position) stmts after)
    (member : .block name inner start ∈ inParent) (inside : stmt ∈ inner) (more : List String) :
    StandsIn stmt stmts (after ++ next :: more) := by
  cases stands with
  | own occurs => exact .lent occurs member (.here inside)
  | lent parent block occurs =>
    have inBlock : Occurs stmt (body (.parent next inParent position)) := .inside member (.here inside)
    exact .lent parent block (inBlock.trans occurs)

end

/-! ## Tags of a text -/

theorem piecesAll_eq_flatMap (stmts : List Statement) : piecesAll stmts = stmts.flatMap pieces := by
  induction stmts with
  | nil => rfl
  | cons stmt rest ih => rw [piecesAll, ih, List.flatMap_cons]

theorem Occurs.pieces_subset {stmt : Statement} {stmts : List Statement} (occurs : Occurs stmt stmts) :
    stmt.pieces ⊆ piecesAll stmts := by
  induction occurs with
  | here member =>
    rw [piecesAll_eq_flatMap]
    exact fun piece inside => List.mem_flatMap.mpr ⟨_, member, inside⟩
  | @inside outer _ member _ within =>
    have around : piecesAll outer.body ⊆ outer.pieces := by
      cases outer <;> simp [body, pieces, piecesAll]
    rw [piecesAll_eq_flatMap]
    exact fun piece inside => List.mem_flatMap.mpr ⟨_, member, around (within inside)⟩

end Statement

/-- The marks among some pieces, in order. -/
theorem marks_separate (pieces : List Piece) :
    (separate pieces).2.map Prod.fst = pieces.filterMap fun | .text _ => none | .mark m => some m := by
  induction pieces with
  | nil => rfl
  | cons piece rest ih => cases piece <;> simp [separate, ih]

theorem Alike.mem_mark {a b : List Piece} {m : Mark} (alike : Alike a b) (member : .mark m ∈ a) : .mark m ∈ b := by
  have listed (pieces : List Piece) : m ∈ (separate pieces).2.map Prod.fst ↔ .mark m ∈ pieces := by
    rw [marks_separate, List.mem_filterMap]
    constructor
    · rintro ⟨piece, inside, marked⟩
      cases piece with
      | text content => cases marked
      | mark m' => exact Option.some.inj marked ▸ inside
    · exact fun inside => ⟨_, inside, rfl⟩
  rw [← listed, ← alike.separate_eq, listed]
  exact member

/-- A text has a tag at a position whose name refers to a value. -/
def HasReference (text name : String) (position : Position) : Prop :=
  ∃ t ∈ (tokenize text).tokens, ∃ kind : TagKind, t.token = .tag name kind ∧ kind.refers = true ∧ t.position = position

theorem tag_of_mark {stmt : Statement} {stmts : List Statement} {text indent : String} {m : Mark}
    (parsed : Statement.ofSource text indent = .ok stmts) (occurs : stmt.Occurs stmts) (marked : .mark m ∈ stmt.pieces) :
    ∃ line ∈ (layout text).lines, ∃ t ∈ line.tokens, ∃ name kind, t.token = .tag name kind ∧
      line.mark? indent t.position name kind = some m := by
  obtain ⟨clean, read⟩ := ofSource_eq_ok.mp parsed
  have margins : ∀ line ∈ (layout text).lines, line.standalone = true → line.indent = line.blanks :=
    fun line member alone => line.indent_eq_blanks member alone
  have inText := (alike_of_readLines margins read).mem_mark (occurs.pieces_subset marked)
  obtain ⟨line, member, inLine⟩ := List.mem_flatMap.mp inText
  rcases List.mem_append.mp inLine with indented | said
  · split at indented <;> simp at indented
  · obtain ⟨t, inside, said⟩ := List.mem_flatMap.mp said
    refine ⟨line, member, t, inside, ?_⟩
    unfold Line.piecesOf at said
    cases token : t.token with
    | tag name kind => exact ⟨name, kind, rfl, by simpa [token] using said⟩
    | text | newline => split at said <;> simp_all
    | delimiters => simp [token] at said

/-- A statement that asks for a name has the mark of a tag with that name. -/
theorem Compiler.Asks.mark {c : Compiler} {stmt : Statement} {name : String} {position : Position}
    (asks : c.Asks stmt name position) : ∃ m, .mark m ∈ stmt.pieces ∧ ∀ {line : Line} {indent found start kind},
      line.mark? indent start found kind = some m → found = name ∧ kind.refers = true ∧ start = position := by
  cases asks with
  | interpolation =>
    refine ⟨_, List.mem_cons_self, fun {_ _ _ _ kind} marks => ?_⟩
    cases kind <;> simp_all [Line.mark?, TagKind.refers]
  | sect plain =>
    refine ⟨_, List.mem_cons_self, fun {_ _ _ _ kind} marks => ?_⟩
    cases kind <;> simp_all [Line.mark?, TagKind.refers]

theorem hasReference_of_asks {c : Compiler} {stmt : Statement} {stmts : List Statement} {text indent name : String}
    {position : Position} (parsed : Statement.ofSource text indent = .ok stmts) (occurs : stmt.Occurs stmts)
    (asks : c.Asks stmt name position) : HasReference text name position := by
  obtain ⟨m, marked, only⟩ := asks.mark
  obtain ⟨line, member, t, inside, found, kind, token, marks⟩ := tag_of_mark parsed occurs marked
  obtain ⟨rfl, refers, here⟩ := only marks
  have listed : t ∈ (layout text).lines.flatMap (·.tokens) := List.mem_flatMap.mpr ⟨line, member, inside⟩
  rw [tokens_of_lines (ofSource_eq_ok.mp parsed).1] at listed
  exact ⟨t, listed, kind, token, refers, here⟩

namespace Compiler

section

variable {c : Compiler} {path name found : String} {position p : Position}

/-- Nothing is resolved while a text is loaded. -/
theorem pathFault?_ne_unresolved : c.pathFault? path position ≠ some (.unresolvedReference name p) := by
  unfold pathFault?
  obtain ⟨file, fragment?⟩ := splitFragment path
  dsimp only
  split
  · simp
  · split
    · simp
    · simp
    · split <;> simp

theorem sourceFault?_ne_unresolved : c.sourceFault? found position ≠ some (.unresolvedReference name p) := by
  unfold sourceFault?
  rcases Dictionary.find? found c.partials with - | (text | path)
  · exact pathFault?_ne_unresolved
  · simp
  · exact pathFault?_ne_unresolved

end

/-! ## Statements on their way -/

/-- The text that was parsed for a template of a chain: the entry has its own, and all others are included. -/
def parsedText? (c : Compiler) (entry : Entry) (before : List String) (template : String) : Option String :=
  if before = [] then c.entrySource? entry else c.source? template

/-- A statement that is met below a chain of templates stands in the text of one of them. -/
def Written (c : Compiler) (entry : Entry) (chain : List String) (stmt : Statement) : Prop :=
  ∃ before template after text indent stmts, chain = before ++ template :: after ∧
    c.parsedText? entry before template = some text ∧ Statement.ofSource text indent = .ok stmts ∧
      stmt.StandsIn stmts after

/-- The overrides in force below a chain stand in the text of a template of it, however far the chain goes on. -/
def OverridesWritten (c : Compiler) (entry : Entry) (chain : List String) (overrides : Overrides) : Prop :=
  ∀ override ∈ overrides, ∀ stmt ∈ override.2, ∀ more, c.Written entry (chain ++ more) stmt

section

variable {c : Compiler} {entry : Entry} {chain : List String} {stmt outer : Statement} {overrides inner : Overrides}
  {name indent template text : String} {body stmts : List Statement} {position : Position} {scope : Scope} {frame : Frame}

theorem Written.in_body (written : c.Written entry chain outer) (member : stmt ∈ outer.body) :
    c.Written entry chain stmt := by
  obtain ⟨before, template, after, text, indent, stmts, rfl, known, parsed, stands⟩ := written
  exact ⟨before, template, after, text, indent, stmts, rfl, known, parsed, stands.in_body member⟩

theorem Written.ne_nil (written : c.Written entry chain stmt) : chain ≠ [] := by
  obtain ⟨before, template, after, text, indent, stmts, rfl, _⟩ := written
  simp

theorem written_of_text (known : c.parsedText? entry chain template = some text)
    (parsed : Statement.ofSource text indent = .ok stmts) :
    ∀ stmt ∈ stmts, c.Written entry (chain ++ [template]) stmt :=
  fun _ member => ⟨chain, template, [], text, indent, stmts, rfl, known, parsed, .own (.here member)⟩

theorem overridesWritten_directBlocks (written : c.Written entry chain (.parent name body position)) :
    c.OverridesWritten entry (chain ++ [name]) (directBlocks body) := by
  intro override member stmt inside more
  obtain ⟨before, template, after, text, indent, stmts, rfl, known, parsed, stands⟩ := written
  obtain ⟨start, block⟩ := mem_directBlocks member
  refine ⟨before, template, after ++ name :: more, text, indent, stmts, by simp, known, parsed, ?_⟩
  exact stands.lend block inside more

theorem OverridesWritten.further (written : c.OverridesWritten entry chain overrides) (name : String) :
    c.OverridesWritten entry (chain ++ [name]) overrides := by
  intro override member stmt inside more
  rw [List.append_assoc]
  exact written override member stmt inside _

/-- A body that is opened is that of the statement, or an override. -/
theorem written_of_opens (written : c.Written entry chain stmt) (replaced : c.OverridesWritten entry chain overrides)
    (opens : c.Opens scope overrides stmt position frame inner body) :
    (∀ s ∈ body, c.Written entry chain s) ∧ c.OverridesWritten entry chain inner := by
  cases opens with
  | lambda | sect | block => exact ⟨fun s member => written.in_body member, replaced⟩
  | replaced found =>
    refine ⟨fun s member => ?_, fun override member => replaced override (List.mem_of_mem_filter member)⟩
    simpa using replaced _ (Dictionary.mem_of_find? found) s member []

theorem written_of_includes (written : c.Written entry chain stmt)
    (replaced : c.OverridesWritten entry chain overrides) (includes : Includes overrides stmt name indent position inner) :
    c.OverridesWritten entry (chain ++ [name]) inner := by
  cases includes with
  | inclusion => exact nofun
  | parent =>
    intro override member
    rcases Dictionary.mem_of_mem_insertAll member with further | direct
    · exact replaced.further _ override further
    · exact overridesWritten_directBlocks written override direct

/-- The tag of an unresolved reference stands in the text of a template of the chain. -/
theorem written_of_fails {levels : Nat} {e : CompileError} (fails : Fails c levels scope chain overrides stmts e)
    (written : ∀ s ∈ stmts, c.Written entry chain s) (replaced : c.OverridesWritten entry chain overrides)
    (unresolved : e.fault = .unresolvedReference name position) :
    ∃ stmt, c.Asks stmt name position ∧ c.Written entry e.chain stmt := by
  induction fails with
  | later _ _ behind => exact behind (List.forall_mem_cons.mp written).2 replaced unresolved
  | unresolved asks _ =>
    cases unresolved
    exact ⟨_, asks, (List.forall_mem_cons.mp written).1⟩
  | inside opens _ within =>
    obtain ⟨inBody, inForce⟩ := written_of_opens (List.forall_mem_cons.mp written).1 replaced opens
    exact within inBody inForce unresolved
  | unloaded _ _ refused =>
    cases unresolved
    exact absurd refused sourceFault?_ne_unresolved
  | unreadable _ _ _ faulty =>
    cases unresolved
    cases ofSource_of_error faulty
  | @included _ _ chain _ _ _ name _ _ _ source _ _ includes _ loaded parsed _ within =>
    have first := (List.forall_mem_cons.mp written).1
    have known : c.parsedText? entry chain name = some source := by rw [parsedText?, if_neg first.ne_nil, loaded]
    exact within (written_of_text known parsed) (written_of_includes first replaced includes) unresolved
  | tooDeep | circular | includedTooDeep => cases unresolved

/-- A name that cannot be resolved has its tag in the text of a template of the chain, at the position of the error.
That template is the last of the chain, or the tag stands in a block which that text lends to the next one. -/
theorem unresolved_in_chain {t : CompileState}
    (failed : c.compileEntry entry = .error ⟨.unresolvedReference name position, chain⟩ t) :
    ∃ before template after text indent stmts stmt, chain = before ++ template :: after ∧
      c.parsedText? entry before template = some text ∧ HasReference text name position ∧
        Statement.ofSource text indent = .ok stmts ∧ c.Asks stmt name position ∧ stmt.StandsIn stmts after := by
  rcases failsAt_iff.mpr ⟨t, failed⟩ with ⟨refused⟩ | ⟨found, faulty⟩ | ⟨found, parsed, fails⟩
  · exact absurd refused pathFault?_ne_unresolved
  · cases ofSource_of_error faulty
  · have known : c.parsedText? entry [] entry.name = some _ := found
    have entered := written_of_text known parsed
    obtain ⟨stmt, asks, before, template, after, text, indent, stmts, chained, known, read, stands⟩ :=
      written_of_fails fails entered nofun rfl
    exact ⟨before, template, after, text, indent, stmts, stmt, chained, known, hasReference_of_asks read stands.occurs asks,
      read, asks, stands⟩

end

/-- A parent with an override, in which a name refers to nothing. -/
def lentSource : String := tagText "<p" ++ tagText "$a" ++ tagText "missing" ++ tagText "/a" ++ tagText "/p"

/-- The template that is included, with the block for the override. -/
def borrowerSource : String := tagText "$a" ++ tagText "/a"

def lentCompiler : Compiler where
  loader := .ofDictionary []
  partials := [("p", .inline borrowerSource)]
  schema := .object [("x", .scalar)]

theorem lent_fails : ∃ t, lentCompiler.compileEntry (.source lentSource "main") =
    .error ⟨.unresolvedReference "missing" ⟨1, 13⟩, ["main", "p"]⟩ t :=
  exists_of_error? (by cbv)

/-- The last template of the chain has no such tag: it is in the text that lends it. -/
theorem lent_reference_elsewhere :
    (∃ t, lentCompiler.compileEntry (.source lentSource "main") =
      .error ⟨.unresolvedReference "missing" ⟨1, 13⟩, ["main"] ++ ["p"]⟩ t) ∧
      lentCompiler.parsedText? (.source lentSource "main") ["main"] "p" = some borrowerSource ∧
        ¬ HasReference borrowerSource "missing" ⟨1, 13⟩ := by
  refine ⟨lent_fails, rfl, ?_⟩
  have tokens : (tokenize borrowerSource).tokens =
      [⟨.tag "a" .blockStart, ⟨1, 1⟩, 0, tagText "$a"⟩, ⟨.tag "a" .scopeEnd, ⟨1, 7⟩, 6, tagText "/a"⟩] := by cbv
  simp [HasReference, tokens]

theorem lent_in_chain :
    (∃ t, lentCompiler.compileEntry (.source lentSource "main") =
      .error ⟨.unresolvedReference "missing" ⟨1, 13⟩, ["main", "p"]⟩ t) ∧
      ∃ before template after text indent stmts stmt, ["main", "p"] = before ++ template :: after ∧
        lentCompiler.parsedText? (.source lentSource "main") before template = some text ∧
          HasReference text "missing" ⟨1, 13⟩ ∧ Statement.ofSource text indent = .ok stmts ∧
            lentCompiler.Asks stmt "missing" ⟨1, 13⟩ ∧ stmt.StandsIn stmts after := by
  obtain ⟨t, failed⟩ := lent_fails
  exact ⟨⟨t, failed⟩, unresolved_in_chain failed⟩

end Compiler
end Mustache

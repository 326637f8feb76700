import Mustache.Proofs.ConvertedSources
import Mustache.Proofs.TagNames

/-!
# Programs with converted line endings

Line endings show in the texts of a program only. With a carriage return at every line feed of the entry, the registered
templates and what the loader gives, the same statements fail and the others emit the same nodes, with converted texts
(`Emits.crlf`, `Fails.crlf`), so that a compilation comes to the converted program or to the same error
(`Compiler.compileEntry_crlf`). The names of fragments are met in comments, which are converted too, so no path may have
line feeds; tags cannot name such a path (`inLine_of_ofSource`).
-/

namespace Mustache
open Text

mutual
/-- A node with a carriage return at every line feed of its texts. -/
def Node.crlf : Node → Node
  | .text content => .text (crlfText content)
  | .interpolation lookup escape => .interpolation lookup escape
  | .sect lookup kind body => .sect lookup kind (Node.crlfAll body)
  | .lambda name body => .lambda name (Node.crlfAll body)

def Node.crlfAll : List Node → List Node
  | [] => []
  | n :: r => n.crlf :: Node.crlfAll r
end

def Program.crlf (p : Program) : Program := { p with nodes := Node.crlfAll p.nodes }

def CompileError.crlf (e : CompileError) : CompileError := { e with fault := e.fault.change .crlf }

namespace Node

theorem crlfAll_eq_map (nodes : List Node) : crlfAll nodes = nodes.map crlf := by
  induction nodes with
  | nil => rfl
  | cons n r ih => rw [crlfAll, ih, List.map_cons]

theorem map_crlf_push (nodes : List Node) (n : Node) : (push nodes n).map crlf = push (nodes.map crlf) n.crlf := by
  cases nodes with
  | nil => cases n <;> rfl
  | cons m r =>
    cases n with
    | text content =>
      cases m with
      | text before => simp only [push, List.map_cons, crlf, crlfText_append]
      | _ => rfl
    | _ => cases m <;> rfl

/-- Texts are joined before or after their line endings are converted. -/
theorem crlfAll_joined (nodes : List Node) : crlfAll (joined nodes) = joined (nodes.map crlf) := by
  suffices general : ∀ before : List Node,
      (nodes.foldl push before).map crlf = (nodes.map crlf).foldl push (before.map crlf) by
    rw [crlfAll_eq_map, joined, joined, List.map_reverse, general]
    rfl
  intro before
  induction nodes generalizing before with
  | nil => rfl
  | cons n r ih => rw [List.map_cons, List.foldl_cons, List.foldl_cons, ih, map_crlf_push]

end Node

/-! ## Texts that are loaded -/

def TemplateSource.crlf : TemplateSource → TemplateSource
  | .inline content => .inline (crlfText content)
  | .file path => .file path

namespace Compiler

/-- The compiler with a carriage return at every line feed of the texts that it loads. -/
def withCrlf (c : Compiler) : Compiler :=
  { c with
    loader := fun path => (c.loader path).map crlfText
    partials := Dictionary.mapValues TemplateSource.crlf c.partials }

/-- Nothing that is loaded has a carriage return, and no path that is registered a line feed. -/
structure LineFed (c : Compiler) : Prop where
  loaded {path text} : c.loader path = .ok text → '\r' ∉ text.toList
  inline {name text} : Dictionary.find? name c.partials = some (.inline text) → '\r' ∉ text.toList
  file {name path} : Dictionary.find? name c.partials = some (.file path) → '\n' ∉ path.toList

def Entry.withCrlf : Entry → Entry
  | .source text given => .source (crlfText text) given
  | .path place => .path place

/-- The text of the entry has no carriage return, or its path no line feed. -/
def Entry.LineFed : Entry → Prop
  | .source text _ => '\r' ∉ text.toList
  | .path place => '\n' ∉ place.toList

section

variable {c : Compiler} {path name file fragment source : String}

theorem inLine_of_splitFragment (inLine : '\n' ∉ path.toList) (split : splitFragment path = (file, some fragment)) :
    '\n' ∉ fragment.toList := by
  unfold splitFragment at split
  cases found : breakOn ['#'] path.toList with
  | none => simp [found] at split
  | some parts =>
    obtain ⟨before, after⟩ := parts
    obtain ⟨rfl, rfl⟩ : String.ofList before = file ∧ String.ofList after = fragment := by simpa [found] using split
    rw [breakOn_eq found] at inLine
    simpa using fun member => inLine (List.mem_append_right _ member)

/-- What a path gives, and what it is refused for. -/
theorem path_crlf (fed : c.LineFed) (inLine : '\n' ∉ path.toList) (position : Position) :
    c.withCrlf.pathSource? path = (c.pathSource? path).map crlfText ∧
      c.withCrlf.pathFault? path position = (c.pathFault? path position).map (Fault.change .crlf) := by
  unfold pathSource? pathFault?
  -- The loader is asked for the same file; only a fragment of it is looked for by a name that could have line feeds.
  cases split : splitFragment path with
  | mk file fragment? =>
    have given : c.withCrlf.loader (c.withCrlf.settings.fullPath file) =
        (c.loader (c.settings.fullPath file)).map crlfText := rfl
    have full : c.withCrlf.settings.fullPath file = c.settings.fullPath file := rfl
    dsimp only
    rw [given, full]
    by_cases invalid : file = "" ∨ fragment? = some ""
    · simp only [if_pos invalid]
      exact ⟨rfl, rfl⟩
    · simp only [if_neg invalid]
      cases loaded : c.loader (c.settings.fullPath file) with
      | error cause => exact ⟨rfl, rfl⟩
      | ok text =>
        cases fragment? with
        | none => exact ⟨rfl, rfl⟩
        | some fragment =>
          have cut := Fragment.extract_crlf (fed.loaded loaded) (inLine_of_splitFragment inLine split)
          simp only [Except.map, cut]
          rcases Fragment.extract text fragment with cause | (_ | part) <;> exact ⟨rfl, rfl⟩

theorem notMem_pathSource? (fed : c.LineFed) (found : c.pathSource? path = some source) : '\r' ∉ source.toList := by
  revert found
  unfold pathSource?
  obtain ⟨file, fragment?⟩ := splitFragment path
  dsimp only
  split
  · exact nofun
  · cases loaded : c.loader (c.settings.fullPath file) with
    | error cause => exact nofun
    | ok text =>
      cases fragment? with
      | none => exact fun found => Option.some.inj found ▸ fed.loaded loaded
      | some fragment =>
        dsimp only
        cases cut : Fragment.extract text fragment with
        | error cause => exact nofun
        | ok part =>
          rintro rfl
          exact Fragment.notMem_extract (fed.loaded loaded) cut

/-- What the name of a template gives, and what it is refused for. -/
theorem source_crlf (fed : c.LineFed) (inLine : '\n' ∉ name.toList) (position : Position) :
    c.withCrlf.source? name = (c.source? name).map crlfText ∧
      c.withCrlf.sourceFault? name position = (c.sourceFault? name position).map (Fault.change .crlf) := by
  have registered : Dictionary.find? name c.withCrlf.partials = (Dictionary.find? name c.partials).map .crlf :=
    Dictionary.find?_mapValues ..
  unfold source? sourceFault?
  rw [registered]
  cases listed : Dictionary.find? name c.partials with
  | none => exact path_crlf fed inLine position
  | some source =>
    cases source with
    | inline text => exact ⟨rfl, rfl⟩
    | file path => exact path_crlf fed (fed.file listed) position

theorem notMem_source? (fed : c.LineFed) (found : c.source? name = some source) : '\r' ∉ source.toList := by
  revert found
  unfold source?
  cases listed : Dictionary.find? name c.partials with
  | none => exact notMem_pathSource? fed
  | some registered =>
    cases registered with
    | inline text => exact fun found => Option.some.inj found ▸ fed.inline listed
    | file path => exact notMem_pathSource? fed

theorem entrySource?_crlf {entry : Entry} (fed : c.LineFed) (entryFed : entry.LineFed) :
    c.withCrlf.entrySource? entry.withCrlf = (c.entrySource? entry).map crlfText := by
  cases entry with
  | source text name => rfl
  | path path => exact (path_crlf fed entryFed {}).1

theorem notMem_entrySource? {entry : Entry} (fed : c.LineFed) (entryFed : entry.LineFed)
    (found : c.entrySource? entry = some source) : '\r' ∉ source.toList := by
  cases entry with
  | source text name => exact Option.some.inj found ▸ entryFed
  | path path => exact notMem_pathSource? fed found

end
end Compiler

/-! ## Names of included templates -/

/-- The name of the template that a statement includes. -/
def Statement.included? : Statement → Option String
  | .inclusion name _ _ | .parent name _ _ => some name
  | _ => none

/-- No template is included by a name with a line feed, however deep. -/
def Statement.NamesInLine (stmts : List Statement) : Prop :=
  ∀ stmt : Statement, stmt.Occurs stmts → ∀ name ∈ stmt.included?, '\n' ∉ name.toList

section

variable {source text name indent : String} {stmt : Statement} {stmts rest body : List Statement} {t : LocatedToken}
  {kind : TagKind} {c : Compiler} {scope : Scope} {overrides inner : Overrides} {position : Position} {frame : Frame}

/-- The names of tags are words. -/
theorem inLine_of_tag (member : t ∈ (tokenize source).tokens) (tag : t.token = .tag name kind)
    (named : kind ≠ .comment) : '\n' ∉ name.toList := by
  obtain ⟨before, after, cut⟩ := List.append_of_mem member
  have reads := tokenize_reads source
  rw [cut] at reads
  obtain ⟨m, l, _, _, read, rfl, _⟩ := reads.lexeme_at
  have valid := (nameOf_of_lexeme read tag).valid named
  intro feed
  have blank := valid.2 _ feed
  rw [isBlank_feed] at blank
  cases blank

theorem Statement.mark_of_included (includes : stmt.included? = some name) :
    ∃ m, .mark m ∈ stmt.pieces ∧ ∀ {line : Line} {indent found start kind},
      line.mark? indent start found kind = some m → found = name ∧ kind ≠ .comment := by
  cases stmt with
  | inclusion given _ _ | parent given _ _ =>
    obtain rfl : given = name := Option.some.inj includes
    refine ⟨_, List.mem_cons_self, fun {_ _ _ _ kind} marks => ?_⟩
    cases kind <;> simp_all [Line.mark?]
  | text | interpolation | sect | block => cases includes

theorem namesInLine_of_ofSource (parsed : Statement.ofSource text indent = .ok stmts) :
    Statement.NamesInLine stmts := by
  intro stmt occurs name includes
  obtain ⟨m, marked, only⟩ := Statement.mark_of_included includes
  obtain ⟨line, member, t, inside, found, kind, token, marks⟩ := tag_of_mark parsed occurs marked
  obtain ⟨rfl, named⟩ := only marks
  exact inLine_of_tag (mem_tokens_of_line member inside) token named

namespace Statement.NamesInLine

theorem subset (inLine : NamesInLine stmts) (part : rest ⊆ stmts) : NamesInLine rest := by
  intro stmt occurs
  cases occurs with
  | here member => exact inLine stmt (.here (part member))
  | inside member within => exact inLine stmt (.inside (part member) within)

theorem inside (inLine : NamesInLine stmts) (member : stmt ∈ stmts) : NamesInLine stmt.body :=
  fun part occurs => inLine part (.inside member occurs)

end Statement.NamesInLine

/-- Statements and overrides that include no template by a name with a line feed. -/
structure NamesInLine (overrides : Overrides) (stmts : List Statement) : Prop where
  stmts : Statement.NamesInLine stmts
  overrides : ∀ override ∈ overrides, Statement.NamesInLine override.2

namespace NamesInLine

theorem later (inLine : NamesInLine overrides (stmt :: rest)) : NamesInLine overrides rest :=
  ⟨inLine.stmts.subset (List.subset_cons_self ..), inLine.overrides⟩

theorem first (inLine : NamesInLine overrides (stmt :: rest)) : NamesInLine overrides [stmt] :=
  ⟨inLine.stmts.subset (by simp), inLine.overrides⟩

theorem own (inLine : NamesInLine overrides (stmt :: rest)) : NamesInLine overrides stmt.body :=
  ⟨inLine.stmts.inside List.mem_cons_self, inLine.overrides⟩

theorem replaced (inLine : NamesInLine overrides stmts) (found : Dictionary.find? name overrides = some body) :
    NamesInLine (Dictionary.erase name overrides) body :=
  ⟨inLine.overrides _ (Dictionary.mem_of_find? found),
    fun override member => inLine.overrides override (List.mem_of_mem_filter member)⟩

theorem opened (inLine : NamesInLine overrides (stmt :: rest))
    (opens : c.Opens scope overrides stmt position frame inner body) : NamesInLine inner body := by
  cases opens with
  | lambda | sect | block => exact inLine.own
  | replaced found => exact inLine.replaced found

/-- The statements that are read of an included template, and the overrides that are in force there. -/
theorem included (inLine : NamesInLine overrides (stmt :: rest))
    (includes : Compiler.Includes overrides stmt name indent position inner)
    (parsed : Statement.ofSource source indent = .ok stmts) : NamesInLine inner stmts := by
  refine ⟨namesInLine_of_ofSource parsed, ?_⟩
  cases includes with
  | inclusion => exact nofun
  | parent =>
    intro override member
    rcases Dictionary.mem_of_mem_insertAll member with further | direct
    · exact inLine.overrides override further
    · obtain ⟨start, inParent⟩ := Compiler.mem_directBlocks direct
      have own : Statement.NamesInLine (Statement.body (.parent name _ position)) := inLine.stmts.inside List.mem_cons_self
      exact own.inside inParent

theorem named (inLine : NamesInLine overrides (stmt :: rest))
    (includes : Compiler.Includes overrides stmt name indent position inner) : '\n' ∉ name.toList := by
  refine inLine.stmts stmt (.here List.mem_cons_self) name ?_
  cases includes <;> rfl

end NamesInLine

end

/-! ## Statements -/

section

variable {c : Compiler} {levels : Nat} {scope : Scope} {chain : List String} {overrides inner : Overrides}
  {stmt : Statement} {stmts body : List Statement} {name indent source : String} {position : Position} {frame : Frame}
  {met : List (String × Resolution)} {nodes : List Node} {e : CompileError} {fault : Fault}

namespace Compiler

theorem loaded_crlf (fed : c.LineFed) (inLine : '\n' ∉ name.toList) (loaded : c.source? name = some source) :
    c.withCrlf.source? name = some (crlfText source) := by
  rw [(source_crlf fed inLine {}).1, loaded]
  rfl

theorem refused_crlf (fed : c.LineFed) (inLine : '\n' ∉ name.toList)
    (refused : c.sourceFault? name position = some fault) :
    c.withCrlf.sourceFault? name position = some (fault.change .crlf) := by
  rw [(source_crlf fed inLine position).2, refused]
  rfl

theorem parsed_crlf (no_return : '\r' ∉ source.toList) (parsed : Statement.ofSource source indent = .ok stmts) :
    Statement.ofSource (crlfText source) (crlfText indent) = .ok (Statement.changeAll .crlf stmts) := by
  rw [Statement.ofSource_crlf no_return, parsed]
  rfl

theorem faulty_crlf (no_return : '\r' ∉ source.toList) (faulty : Statement.ofSource source indent = .error fault) :
    Statement.ofSource (crlfText source) (crlfText indent) = .error (fault.change .crlf) := by
  rw [Statement.ofSource_crlf no_return, faulty]
  rfl

theorem Asks.crlf (asks : c.Asks stmt name position) : c.withCrlf.Asks (stmt.change .crlf) name position := by
  cases asks with
  | interpolation => exact .interpolation
  | sect plain => exact .sect plain

theorem Opens.crlf (opens : c.Opens scope overrides stmt position frame inner body) :
    c.withCrlf.Opens scope (overrides.change .crlf) (stmt.change .crlf) position frame (inner.change .crlf)
      (Statement.changeAll .crlf body) := by
  cases opens with
  | lambda calls => exact .lambda calls
  | sect plain refers => exact .sect plain refers
  | replaced found =>
    rw [Overrides.change_erase]
    exact .replaced (by rw [Overrides.find?_change, found]; rfl)
  | block own => exact .block (by rw [Overrides.find?_change, own]; rfl)

theorem Includes.crlf (includes : Includes overrides stmt name indent position inner) :
    Includes (overrides.change .crlf) (stmt.change .crlf) name (crlfText indent) position (inner.change .crlf) := by
  cases includes with
  | inclusion => exact .inclusion
  | parent =>
    rw [Overrides.change_insertAll, Overrides.change_directBlocks, crlfText_empty]
    exact .parent

end Compiler
open Compiler

/-- Converted statements emit the same nodes with converted texts. -/
theorem Emits.crlf (fed : c.LineFed) (emits : Emits c levels scope chain overrides stmts met nodes)
    (inLine : NamesInLine overrides stmts) :
    Emits c.withCrlf levels scope chain (overrides.change .crlf) (Statement.changeAll .crlf stmts) met
      (nodes.map Node.crlf) := by
  -- Bodies and included templates have names and overrides of their own, so these go along with the induction.
  induction emits with
  | nil => exact .nil
  | text _ after => exact .text (after inLine.later)
  | interpolation refers _ after => exact .interpolation refers (after inLine.later)
  | lambda calls _ _ within after =>
    rw [List.map_cons, Node.crlf, Node.crlfAll_joined]
    exact .lambda calls (within inLine.own) (after inLine.later)
  | sect plain refers _ _ within after =>
    rw [List.map_cons, Node.crlf, Node.crlfAll_joined]
    exact .sect plain refers (within inLine.own) (after inLine.later)
  | inclusion fresh loaded parsed _ _ within after =>
    have there := loaded_crlf fed (inLine.named .inclusion) loaded
    rw [List.map_append]
    have read := parsed_crlf (notMem_source? fed loaded) parsed
    exact .inclusion fresh there read (within (inLine.included .inclusion parsed)) (after inLine.later)
  | parent fresh loaded parsed _ _ within after =>
    have there := loaded_crlf fed (inLine.named .parent) loaded
    have read := parsed_crlf (notMem_source? fed loaded) parsed
    have inside := within (inLine.included .parent parsed)
    rw [crlfText_empty] at read
    rw [Overrides.change_insertAll, Overrides.change_directBlocks] at inside
    rw [List.map_append]
    exact .parent fresh there read inside (after inLine.later)
  | replaced found _ _ within after =>
    have inside := within (inLine.replaced found)
    rw [Overrides.change_erase] at inside
    rw [List.map_append]
    exact .replaced (by rw [Overrides.find?_change, found]; rfl) inside (after inLine.later)
  | block own _ _ within after =>
    rw [List.map_append]
    exact .block (by rw [Overrides.find?_change, own]; rfl) (within inLine.own) (after inLine.later)

/-- Converted statements fail where the statements do, with the same error. -/
theorem Fails.crlf (fed : c.LineFed) (fails : Fails c levels scope chain overrides stmts e)
    (inLine : NamesInLine overrides stmts) :
    Fails c.withCrlf levels scope chain (overrides.change .crlf) (Statement.changeAll .crlf stmts) e.crlf := by
  induction fails with
  | later first _ behind => exact .later (first.crlf fed inLine.first) (behind inLine.later)
  | unresolved asks unknown => exact .unresolved asks.crlf unknown
  | tooDeep opens => exact .tooDeep opens.crlf
  | inside opens _ within => exact .inside opens.crlf (within (inLine.opened opens))
  | circular includes again => exact .circular includes.crlf again
  | includedTooDeep includes fresh => exact .includedTooDeep includes.crlf fresh
  | unloaded includes fresh refused =>
    exact .unloaded includes.crlf fresh (refused_crlf fed (inLine.named includes) refused)
  | unreadable includes fresh loaded faulty =>
    have there := loaded_crlf fed (inLine.named includes) loaded
    exact .unreadable includes.crlf fresh there (faulty_crlf (notMem_source? fed loaded) faulty)
  | included includes fresh loaded parsed _ within =>
    have there := loaded_crlf fed (inLine.named includes) loaded
    have read := parsed_crlf (notMem_source? fed loaded) parsed
    exact .included includes.crlf fresh there read (within (inLine.included includes parsed))

end

/-! ## Compilations -/

namespace Compiler

section

variable {c : Compiler} {entry : Entry} {source : String} {met : List (String × Resolution)} {p : Program}
  {e : CompileError}

theorem Entry.name_withCrlf (entry : Entry) : entry.withCrlf.name = entry.name := by cases entry <;> rfl

theorem namesInLine_of_entry {stmts : List Statement} (parsed : Statement.ofSource source "" = .ok stmts) :
    NamesInLine [] stmts := ⟨namesInLine_of_ofSource parsed, List.forall_mem_nil _⟩

theorem Compiles.crlf {name : String} (fed : c.LineFed) (no_return : '\r' ∉ source.toList)
    (compiles : Compiles c source name met p) : Compiles c.withCrlf (crlfText source) name met p.crlf := by
  obtain ⟨stmts, nodes, parsed, emits, rfl⟩ := compiles
  have read := parsed_crlf no_return parsed
  rw [crlfText_empty] at read
  refine ⟨_, _, read, emits.crlf fed (namesInLine_of_entry parsed), ?_⟩
  rw [Program.crlf, Node.crlfAll_joined]

theorem FailsAt.crlf (fed : c.LineFed) (entryFed : entry.LineFed) (fails : c.FailsAt entry e) :
    c.withCrlf.FailsAt entry.withCrlf e.crlf := by
  cases fails with
  | refused refused =>
    have there := (path_crlf fed entryFed {}).2
    rw [refused] at there
    exact .refused there
  | @unreadable entry source fault found faulty =>
    have there := entrySource?_crlf fed entryFed
    have read := faulty_crlf (notMem_entrySource? fed entryFed found) faulty
    rw [found] at there
    rw [crlfText_empty] at read
    rw [CompileError.crlf, ← Entry.name_withCrlf]
    exact .unreadable there read
  | within found parsed fails =>
    have there := entrySource?_crlf fed entryFed
    have read := parsed_crlf (notMem_entrySource? fed entryFed found) parsed
    have inside := fails.crlf fed (namesInLine_of_entry parsed)
    rw [found] at there
    rw [crlfText_empty] at read
    rw [← Entry.name_withCrlf] at inside
    exact .within there read inside

/-- What a compilation comes to: the program, or the error. -/
def withoutState : EStateM.Result CompileError CompileState Program → Except CompileError Program
  | .ok p _ => .ok p
  | .error e _ => .error e

/-- With converted line endings a compilation comes to the converted program, or to the error that it came to. -/
theorem compileEntry_crlf (fed : c.LineFed) (entryFed : entry.LineFed) :
    withoutState (c.withCrlf.compileEntry entry.withCrlf) =
      recast Program.crlf CompileError.crlf (withoutState (c.compileEntry entry)) := by
  cases run : c.compileEntry entry with
  | ok p s =>
    obtain ⟨source, met, found, compiles, _⟩ := compiles_of_entry run
    have there := entrySource?_crlf fed entryFed
    have compiles' := compiles.crlf fed (notMem_entrySource? fed entryFed found)
    rw [found] at there
    rw [← Entry.name_withCrlf] at compiles'
    obtain ⟨t, again, _⟩ := entry_of_compiles there compiles'
    rw [again]
    rfl
  | error e s =>
    have fails : c.FailsAt entry e := failsAt_iff.mpr ⟨s, run⟩
    obtain ⟨t, again⟩ := failsAt_iff.mp (fails.crlf fed entryFed)
    rw [again]
    rfl

end

/-- A file with a fragment. -/
def noteFile : String := tagText "!begin:ps" ++ "\nPS\n" ++ tagText "!end:ps" ++ "\n"

def letterCompiler : Compiler where
  loader := .ofDictionary [("note", noteFile)]
  partials := [("sign", .inline "A\nB\n")]

/-- A registered template, indented, and the fragment. -/
def letterSource : String :=
  "Dear " ++ tagText "name" ++ "\n " ++ tagText ">sign" ++ "\n" ++ tagText ">note#ps" ++ "\n"

def letter : Entry := .source letterSource "letter"

def letterNodes (text : String) : List Node := [.text "Dear ", .interpolation (.search 0 ["name"]) true, .text text]

theorem letterCompiler_lineFed : letterCompiler.LineFed where
  loaded {path text} given := by
    have listed : Dictionary.find? path [("note", noteFile)] = some text := Loader.ofDictionary_eq_ok.mp given
    obtain ⟨rfl, rfl⟩ : path = "note" ∧ text = noteFile := by simpa using Dictionary.mem_of_find? listed
    decide
  inline {name text} listed := by
    obtain ⟨rfl, rfl⟩ : name = "sign" ∧ text = "A\nB\n" := by
      simpa [letterCompiler] using Dictionary.mem_of_find? listed
    decide
  file {name path} listed := by simpa [letterCompiler] using Dictionary.mem_of_find? listed

theorem letter_converted :
    (letterCompiler.LineFed ∧ letter.LineFed) ∧
      withoutState (letterCompiler.compileEntry letter) = .ok ⟨"letter", letterNodes "\n A\n B\nPS\n"⟩ ∧
      withoutState (letterCompiler.withCrlf.compileEntry letter.withCrlf) =
        .ok ⟨"letter", letterNodes "\r\n A\r\n B\r\nPS\r\n"⟩ := by
  have entryFed : letter.LineFed := by
    unfold letter Entry.LineFed
    decide
  have compiled : withoutState (letterCompiler.compileEntry letter) = .ok ⟨"letter", letterNodes "\n A\n B\nPS\n"⟩ := by cbv
  refine ⟨⟨letterCompiler_lineFed, entryFed⟩, compiled, ?_⟩
  rw [compileEntry_crlf letterCompiler_lineFed entryFed, compiled]
  cbv

end Compiler
end Mustache

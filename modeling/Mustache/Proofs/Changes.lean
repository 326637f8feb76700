import Mustache.Proofs.Reading
import Mustache.Compiler

/-!
# Changes of texts and positions

Which statements lines yield is found without a look into their texts and at their positions. So a change of texts,
part by part, and of positions can be made in the lines before they are read, or in the statements that they yield
(`readLines_change`), and the faults change with them (`ofSource_change`).
-/

namespace Mustache
open Text

/-- A change of texts, part by part, and of positions. -/
structure Change where
  text : String → String
  place : Position → Position
  text_append (a b : String) : text (a ++ b) = text a ++ text b
  isEmpty_text (a : String) : (text a).isEmpty = a.isEmpty

variable {ch : Change}

/-! ## Statements and faults -/

mutual
def Statement.change (ch : Change) : Statement → Statement
  | .text content => .text (ch.text content)
  | .interpolation name escape position => .interpolation name escape (ch.place position)
  | .sect name inverted body position => .sect name inverted (Statement.changeAll ch body) (ch.place position)
  | .inclusion name indent position => .inclusion name (ch.text indent) (ch.place position)
  | .parent name body position => .parent name (Statement.changeAll ch body) (ch.place position)
  | .block name body position => .block name (Statement.changeAll ch body) (ch.place position)

def Statement.changeAll (ch : Change) : List Statement → List Statement
  | [] => []
  | s :: r => s.change ch :: Statement.changeAll ch r
end

def SyntaxError.change (ch : Change) : SyntaxError → SyntaxError
  | .unclosedTag p expected => .unclosedTag (ch.place p) expected
  | .emptyName p kind => .emptyName (ch.place p) kind
  | .invalidName p name => .invalidName (ch.place p) (ch.text name)
  | .invalidDelimiters p found => .invalidDelimiters (ch.place p) (ch.text found)
  | .unbalancedTriple p => .unbalancedTriple (ch.place p)
  | .nestedFragment p name => .nestedFragment (ch.place p) name

def Fault.change (ch : Change) : Fault → Fault
  | .unreadable cause => .unreadable (cause.change ch)
  | .unresolvedReference name p => .unresolvedReference name (ch.place p)
  | .sectionMismatch expected found p => .sectionMismatch expected found (ch.place p)
  | .invalidReference name p => .invalidReference name (ch.place p)
  | .tooDeep maxDepth p => .tooDeep maxDepth (ch.place p)
  | fault => fault

namespace Statement

theorem changeAll_eq_map (ch : Change) (stmts : List Statement) : changeAll ch stmts = stmts.map (change ch) := by
  induction stmts with
  | nil => rfl
  | cons s r ih => rw [changeAll, ih, List.map_cons]

theorem changeAll_reverse (ch : Change) (stmts : List Statement) :
    changeAll ch stmts.reverse = (changeAll ch stmts).reverse := by
  rw [changeAll_eq_map, changeAll_eq_map, List.map_reverse]

theorem changeAll_push (ch : Change) (stmts : List Statement) (s : Statement) :
    changeAll ch (push stmts s) = push (changeAll ch stmts) (s.change ch) := by
  cases stmts with
  | nil => cases s <;> rfl
  | cons t r =>
    cases s with
    | text content =>
      cases t with
      | text before => simp only [push, changeAll, change, ch.text_append]
      | _ => rfl
    | _ => cases t <;> rfl

end Statement

def Overrides.change (ch : Change) (overrides : Overrides) : Overrides :=
  Dictionary.mapValues (Statement.changeAll ch) overrides

namespace Overrides

theorem change_erase (ch : Change) (name : String) (overrides : Overrides) :
    change ch (Dictionary.erase name overrides) = Dictionary.erase name (change ch overrides) :=
  Dictionary.mapValues_erase ..

theorem change_insertAll (ch : Change) (added overrides : Overrides) :
    change ch (Dictionary.insertAll added overrides) = Dictionary.insertAll (change ch added) (change ch overrides) :=
  Dictionary.mapValues_insertAll ..

theorem find?_change (ch : Change) (name : String) (overrides : Overrides) :
    Dictionary.find? name (change ch overrides) = (Dictionary.find? name overrides).map (Statement.changeAll ch) :=
  Dictionary.find?_mapValues ..

theorem change_directBlocks (ch : Change) (body : List Statement) :
    change ch (Compiler.directBlocks body) = Compiler.directBlocks (Statement.changeAll ch body) := by
  rw [Compiler.directBlocks, Dictionary.ofList, change_insertAll, Compiler.directBlocks, Dictionary.ofList]
  congr 1
  induction body with
  | nil => rfl
  | cons stmt rest ih =>
    rw [change, Dictionary.mapValues] at ih
    cases stmt <;> simp [Statement.changeAll, Statement.change, change, Dictionary.mapValues, ih]

end Overrides

/-! ## Lines -/

/-- What a token says before and after a change. Comments say nothing. -/
inductive Change.Turns (ch : Change) : Token → Token → Prop where
  | text {content} : Turns ch (.text content) (.text (ch.text content))
  | newline {before after} (same : ch.text before.text = after.text) : Turns ch (.newline before) (.newline after)
  | delimiters {previous next previous' next'} : Turns ch (.delimiters previous next) (.delimiters previous' next')
  | tag {name kind} : Turns ch (.tag name kind) (.tag name kind)
  | comment {body body'} : Turns ch (.tag body .comment) (.tag body' .comment)

/-- What a line says before and after a change, each of its tokens with what is made of it. -/
structure Change.TurnsLine (ch : Change) (token : LocatedToken → LocatedToken) (line line' : Line) : Prop where
  standalone : line'.standalone = line.standalone
  indent : line'.indent = ch.text line.indent
  emitted : line'.emitted = line.emitted.map token
  turns : ∀ t ∈ line.emitted, ch.Turns t.token (token t).token
  place : ∀ t ∈ line.emitted, (token t).position = ch.place t.position

/-! ## Reading -/

def OpenTag.change (ch : Change) (t : OpenTag) : OpenTag := { t with position := ch.place t.position }

def Outline.change (ch : Change) (o : Outline) : Outline where
  stmts := Statement.changeAll ch o.stmts
  opened := o.opened.map fun entry => (entry.1.change ch, Statement.changeAll ch entry.2)

namespace Outline

variable {o : Outline} {indent name : String} {line line' : Line} {position : Position} {t t' : LocatedToken}
  {token : LocatedToken → LocatedToken} {reshape : Line → Line} {lines : List Line}

theorem change_add (ch : Change) (o : Outline) (s : Statement) :
    (o.add s).change ch = (o.change ch).add (s.change ch) := by
  simp only [add, change, Statement.changeAll_push]

theorem change_enter (ch : Change) (o : Outline) (t : OpenTag) :
    (o.enter t).change ch = (o.change ch).enter (t.change ch) := rfl

theorem change_close (ch : Change) (t : OpenTag) (body : List Statement) :
    (t.close body).change ch = (t.change ch).close (Statement.changeAll ch body) := by
  obtain ⟨kind, name, position⟩ := t
  cases kind <;> simp only [OpenTag.close, OpenTag.change, Statement.change]

theorem change_leave (ch : Change) (o : Outline) (name : String) (position : Position) :
    recast (change ch) (Fault.change ch) (o.leave name position) = (o.change ch).leave name (ch.place position) := by
  obtain ⟨stmts, opened⟩ := o
  cases opened with
  | nil => rfl
  | cons entry others =>
    obtain ⟨t, before⟩ := entry
    by_cases same : t.name = name
    · simp [leave, change, recast, OpenTag.change, same, Statement.changeAll_push, change_close,
        Statement.changeAll_reverse]
    · simp [leave, change, recast, OpenTag.change, same, Fault.change]

theorem change_withReference (ch : Change) (name : String) (position : Position) (o : Outline) :
    recast (change ch) (Fault.change ch) (withReference name position o) =
      withReference name (ch.place position) (o.change ch) := by
  unfold withReference
  split <;> rfl

theorem change_readTag (standalone : line'.standalone = line.standalone) (indented : line'.indent = ch.text line.indent)
    (indent : String) (o : Outline) (position : Position) (name : String) (kind : TagKind) :
    recast (change ch) (Fault.change ch) (o.readTag indent line position name kind) =
      (o.change ch).readTag (ch.text indent) line' (ch.place position) name kind := by
  cases kind with
  | interpolation | unescaped => rw [readTag, change_withReference, change_add]; rfl
  | sectionStart | invertedStart => rw [readTag, change_withReference, change_enter]; rfl
  | scopeEnd => exact change_leave ch o name position
  | inclusion =>
    have nothing : ch.text "" = "" := String.isEmpty_iff.mp (ch.isEmpty_text "")
    rw [readTag, readTag, recast, change_add, Statement.change, standalone, indented]
    split
    · rw [ch.text_append]
    · rw [nothing]
  | parentStart | blockStart => rw [readTag, recast, change_enter]; rfl
  | comment => rfl

theorem change_readToken (standalone : line'.standalone = line.standalone)
    (indented : line'.indent = ch.text line.indent) (turns : ch.Turns t.token t'.token)
    (place : t'.position = ch.place t.position) (indent : String) (o : Outline) :
    recast (change ch) (Fault.change ch) (o.readToken indent line t) =
      (o.change ch).readToken (ch.text indent) line' t' := by
  obtain ⟨before, position, _, _⟩ := t
  obtain ⟨after, _, _, _⟩ := t'
  obtain rfl := place
  cases turns with
  | text => exact congrArg Except.ok (change_add ch o _)
  | newline same =>
    simp only [readToken, recast, change_add, Statement.change, same]
  | delimiters => rfl
  | tag => exact change_readTag standalone indented indent o position _ _
  | comment => rfl

theorem change_readLine (turned : ch.TurnsLine token line line') (indent : String) (o : Outline) :
    recast (change ch) (Fault.change ch) (o.readLine indent line) = (o.change ch).readLine (ch.text indent) line' := by
  have one : ∀ t ∈ line.emitted, ∀ o : Outline, recast (change ch) (Fault.change ch) (o.readToken indent line t) =
      (o.change ch).readToken (ch.text indent) line' (token t) := fun t member =>
    change_readToken turned.standalone turned.indent (turned.turns t member) (turned.place t member) indent
  unfold readLine
  rw [recast_foldlM one, turned.emitted, turned.standalone, ch.isEmpty_text]
  congr 1
  split
  · rfl
  · exact change_add ch o _

/-- A change can be made before lines are read or afterwards. -/
theorem change_readAll (turned : ∀ line ∈ lines, ch.TurnsLine token line (reshape line)) (indent : String) :
    recast (change ch) (Fault.change ch) (lines.foldlM (readLine indent) {}) =
      (lines.map reshape).foldlM (readLine (ch.text indent)) {} :=
  recast_foldlM (fun line member => change_readLine (turned line member) indent) {}

theorem change_finish (ch : Change) (o : Outline) :
    recast (Statement.changeAll ch) (Fault.change ch) o.finish = (o.change ch).finish := by
  obtain ⟨stmts, opened⟩ := o
  cases opened with
  | nil => exact congrArg Except.ok (Statement.changeAll_reverse ch stmts)
  | cons entry others => rfl

end Outline

section

variable {token : LocatedToken → LocatedToken} {reshape : Line → Line} {lines : List Line} {source source' : String}

theorem readLines_change (turned : ∀ line ∈ lines, ch.TurnsLine token line (reshape line)) (indent : String) :
    recast (Statement.changeAll ch) (Fault.change ch) (readLines indent lines) =
      readLines (ch.text indent) (lines.map reshape) := by
  rw [readLines, readLines, ← Outline.change_readAll turned]
  cases lines.foldlM (Outline.readLine indent) {} with
  | ok o => exact o.change_finish ch
  | error fault => rfl

/-- A source of which the lines and the fault are changed has the statements, or the fault, with the change. -/
theorem ofSource_change (lines : (layout source').lines = (layout source).lines.map reshape)
    (failure : (layout source').failure = (layout source).failure.map (SyntaxError.change ch))
    (turned : ∀ line ∈ (layout source).lines, ch.TurnsLine token line (reshape line)) (indent : String) :
    Statement.ofSource source' (ch.text indent) =
      recast (Statement.changeAll ch) (Fault.change ch) (Statement.ofSource source indent) := by
  have read := Outline.change_readAll turned indent
  simp only [Statement.ofSource, lines, failure, ← read]
  cases (layout source).lines.foldlM (Outline.readLine indent) {} with
  | error fault => rfl
  | ok o =>
    cases (layout source).failure with
    | some cause => rfl
    | none => exact (o.change_finish ch).symm

end

end Mustache

import Mathlib
import Mustache.Proofs.Recognition
import Mustache.Proofs.References
import Mustache.Proofs.FragmentLines

/-!
# Statements in the order of their source

Read depth first, the statements of a source are its tags in order, with the texts of its lines between them
(`ofSource_in_order`): every line that does not stand alone has the indentation before it and all of its text,
any other only its tag. Texts are compared between marks, since adjacent texts join. What is read so far, in the
open tags too, is one list of pieces, to which every step adds those of its token (`Outline.Adds`).
-/

namespace Mustache
open Text

/-! ## Pieces -/

/-- What statements say beside texts. A scope has a mark where it opens and one where it closes. -/
inductive Mark where
  | value (name : String) (escape : Bool) (position : Position)
  | inclusion (name indent : String) (position : Position)
  | opens (kind : ScopeKind) (name : String) (position : Position)
  | closes (name : String)

inductive Piece where
  | text (content : String)
  | mark (m : Mark)

mutual
/-- What a statement says, read depth first. -/
def Statement.pieces : Statement → List Piece
  | .text content => [.text content]
  | .interpolation name escape position => [.mark (.value name escape position)]
  | .sect name inverted body position =>
    .mark (.opens (.sect inverted) name position) :: (Statement.piecesAll body ++ [.mark (.closes name)])
  | .inclusion name indent position => [.mark (.inclusion name indent position)]
  | .parent name body position =>
    .mark (.opens .parent name position) :: (Statement.piecesAll body ++ [.mark (.closes name)])
  | .block name body position =>
    .mark (.opens .block name position) :: (Statement.piecesAll body ++ [.mark (.closes name)])

def Statement.piecesAll : List Statement → List Piece
  | [] => []
  | s :: r => s.pieces ++ Statement.piecesAll r
end

/-- The text before the first mark, and each mark with the text behind it. -/
def separate : List Piece → String × List (Mark × String)
  | [] => ("", [])
  | .text content :: r => (content ++ (separate r).1, (separate r).2)
  | .mark m :: r => ("", (m, (separate r).1) :: (separate r).2)

/-- The blanks that a line begins with. -/
def Line.blanks (line : Line) : String := String.ofList ((rawText line.tokens).takeWhile isBlank)

/-- The mark of a tag that is no comment. Only an inclusion that stands alone is indented: by the indentation of the
source and the blanks of its line. -/
def Line.mark? (indent : String) (line : Line) (position : Position) (name : String) : TagKind → Option Mark
  | .interpolation => some (.value name true position)
  | .unescaped => some (.value name false position)
  | .sectionStart => some (.opens (.sect false) name position)
  | .invertedStart => some (.opens (.sect true) name position)
  | .scopeEnd => some (.closes name)
  | .inclusion => some (.inclusion name (if line.standalone then indent ++ line.blanks else "") position)
  | .parentStart => some (.opens .parent name position)
  | .blockStart => some (.opens .block name position)
  | .comment => none

/-- What a token of a line says: texts and line breaks only if the line does not stand alone. -/
def Line.piecesOf (indent : String) (line : Line) (t : LocatedToken) : List Piece :=
  match t.token with
  | .text content => if line.standalone then [] else [.text content]
  | .newline lineBreak => if line.standalone then [] else [.text lineBreak.text]
  | .delimiters .. => []
  | .tag name kind => (line.mark? indent t.position name kind).toList.map .mark

/-- What a line says; the indentation goes before it unless it stands alone. -/
def Line.pieces (indent : String) (line : Line) : List Piece :=
  (if line.standalone then [] else [.text indent]) ++ line.tokens.flatMap (line.piecesOf indent)

/-- The same texts between the same marks, whatever comes behind. -/
def Alike (a b : List Piece) : Prop := ∀ k, separate (a ++ k) = separate (b ++ k)

namespace Alike

variable {a b c : List Piece}

theorem refl (a : List Piece) : Alike a a := fun _ => rfl

theorem trans (first : Alike a b) (second : Alike b c) : Alike a c := fun k => (first k).trans (second k)

theorem append_right (same : Alike a b) (c : List Piece) : Alike (a ++ c) (b ++ c) := by
  intro k
  rw [List.append_assoc, List.append_assoc]
  exact same (c ++ k)

theorem append_left (c : List Piece) (same : Alike a b) : Alike (c ++ a) (c ++ b) := by
  intro k
  induction c with
  | nil => exact same k
  | cons p rest ih => cases p <;> simp only [List.cons_append, separate, ih]

theorem separate_eq (same : Alike a b) : separate a = separate b := by simpa using same []

end Alike

theorem alike_texts (before content : String) : Alike [.text (before ++ content)] [.text before, .text content] := by
  intro k
  simp [separate, String.append_assoc]

theorem alike_empty : Alike [] [.text ""] := by
  intro k
  simp [separate]

/-! ## What is read so far -/

namespace Statement

theorem piecesAll_append (a b : List Statement) : piecesAll (a ++ b) = piecesAll a ++ piecesAll b := by
  induction a with
  | nil => rfl
  | cons s r ih => rw [List.cons_append, piecesAll, piecesAll, ih, List.append_assoc]

theorem piecesAll_reverse_cons (s : Statement) (r : List Statement) :
    piecesAll (s :: r).reverse = piecesAll r.reverse ++ s.pieces := by
  simp [piecesAll_append, piecesAll]

/-- A statement that is added says what it says, though its text may have joined another. -/
theorem alike_push (stmts : List Statement) (s : Statement) :
    Alike (piecesAll (push stmts s).reverse) (piecesAll stmts.reverse ++ s.pieces) := by
  have apart : Alike (piecesAll (s :: stmts).reverse) (piecesAll stmts.reverse ++ s.pieces) := by
    rw [piecesAll_reverse_cons]
    exact .refl _
  cases stmts with
  | nil => cases s <;> exact apart
  | cons t r =>
    cases t with
    | text before =>
      cases s with
      | text content =>
        have joined := (alike_texts before content).append_left (piecesAll r.reverse)
        rw [push, piecesAll_reverse_cons, piecesAll_reverse_cons]
        simpa [pieces] using joined
      | _ => exact apart
    | _ => cases s <;> exact apart

end Statement

namespace Outline

/-- What is said inside open tags, behind what was said before them. -/
def piecesIn (stmts : List Statement) : List (OpenTag × List Statement) → List Piece
  | [] => Statement.piecesAll stmts.reverse
  | (t, before) :: r =>
    piecesIn before r ++ .mark (.opens t.kind t.name t.position) :: Statement.piecesAll stmts.reverse

def pieces (o : Outline) : List Piece := piecesIn o.stmts o.opened

/-- From one outline to another some pieces are added. -/
def Adds (o o' : Outline) (more : List Piece) : Prop := Alike o'.pieces (o.pieces ++ more)

namespace Adds

variable {o o' o'' : Outline} {more others : List Piece}

theorem nothing (o : Outline) : Adds o o [] := by
  rw [Adds, List.append_nil]
  exact .refl _

theorem trans (first : Adds o o' more) (second : Adds o' o'' others) : Adds o o'' (more ++ others) := by
  rw [Adds, ← List.append_assoc]
  exact Alike.trans second (first.append_right others)

/-- Steps that each add something add all of it. -/
theorem foldlM {α : Type} {step : Outline → α → Except Fault Outline} {f : α → List Piece} {items : List α}
    (one : ∀ a ∈ items, ∀ s t, step s a = .ok t → Adds s t (f a)) (folded : items.foldlM step o = .ok o') :
    Adds o o' (items.flatMap f) := by
  induction items generalizing o with
  | nil =>
    obtain rfl := foldlM_nil_eq_ok.mp folded
    exact nothing o
  | cons a rest ih =>
    obtain ⟨first, others⟩ := List.forall_mem_cons.mp one
    obtain ⟨u, read, later⟩ := foldlM_cons_eq_ok.mp folded
    exact (first o u read).trans (ih others later)

end Adds

variable {o o' : Outline} {s : Statement} {name indent : String} {position : Position} {line : Line}

theorem alike_piecesIn {a b : List Statement} {more : List Piece}
    (same : Alike (Statement.piecesAll a.reverse) (Statement.piecesAll b.reverse ++ more))
    (opened : List (OpenTag × List Statement)) : Alike (piecesIn a opened) (piecesIn b opened ++ more) := by
  cases opened with
  | nil => exact same
  | cons entry r =>
    obtain ⟨t, before⟩ := entry
    have behind := same.append_left (piecesIn before r ++ [.mark (.opens t.kind t.name t.position)])
    simpa [piecesIn] using behind

theorem adds_add (o : Outline) (s : Statement) : Adds o (o.add s) s.pieces :=
  alike_piecesIn (Statement.alike_push o.stmts s) o.opened

theorem adds_enter (o : Outline) (t : OpenTag) : Adds o (o.enter t) [.mark (.opens t.kind t.name t.position)] :=
  Alike.refl _

theorem pieces_close (t : OpenTag) (body : List Statement) :
    (t.close body).pieces =
      .mark (.opens t.kind t.name t.position) :: (Statement.piecesAll body ++ [.mark (.closes t.name)]) := by
  unfold OpenTag.close
  cases kind : t.kind <;> simp [Statement.pieces]

theorem adds_leave (left : o.leave name position = .ok o') : Adds o o' [.mark (.closes name)] := by
  obtain ⟨stmts, opened⟩ := o
  cases opened with
  | nil => cases left
  | cons entry r =>
    obtain ⟨t, before⟩ := entry
    unfold leave at left
    dsimp only at left
    split at left
    · next same =>
      cases left
      have closed := alike_piecesIn (Statement.alike_push before (t.close stmts.reverse)) r
      rw [pieces_close, same] at closed
      simpa [Adds, pieces, piecesIn, same] using closed
    · cases left

theorem adds_readTag {kind : TagKind} (margin : line.standalone = true → line.indent = line.blanks)
    (read : o.readTag indent line position name kind = .ok o') :
    Adds o o' ((line.mark? indent position name kind).toList.map .mark) := by
  cases kind with
  | comment =>
    cases read
    exact .nothing o
  | interpolation =>
    obtain ⟨_, rfl⟩ := withReference_ok read
    exact adds_add o _
  | unescaped =>
    obtain ⟨_, rfl⟩ := withReference_ok read
    exact adds_add o _
  | sectionStart =>
    obtain ⟨_, rfl⟩ := withReference_ok read
    exact adds_enter o _
  | invertedStart =>
    obtain ⟨_, rfl⟩ := withReference_ok read
    exact adds_enter o _
  | parentStart =>
    cases read
    exact adds_enter o _
  | blockStart =>
    cases read
    exact adds_enter o _
  | scopeEnd => exact adds_leave read
  | inclusion =>
    cases read
    have added := adds_add o (.inclusion name (if line.standalone then indent ++ line.indent else "") position)
    cases alone : line.standalone with
    | true => simpa [Line.mark?, Statement.pieces, alone, margin alone] using added
    | false => simpa [Line.mark?, Statement.pieces, alone] using added

theorem adds_readToken {t : LocatedToken} (margin : line.standalone = true → line.indent = line.blanks)
    (shown : line.emits t = true) (read : o.readToken indent line t = .ok o') :
    Adds o o' (line.piecesOf indent t) := by
  unfold readToken at read
  unfold Line.piecesOf
  rw [Line.emits] at shown
  cases kind : t.token with
  | text content =>
    obtain rfl : _ = o' := by simpa [kind] using read
    have not_alone : line.standalone = false := by simpa [kind, Token.isTag] using shown
    simpa [not_alone, Statement.pieces] using adds_add o (.text content)
  | newline lineBreak =>
    obtain rfl : _ = o' := by simpa [kind] using read
    have not_alone : line.standalone = false := by simpa [kind, Token.isTag] using shown
    simpa [not_alone, Statement.pieces] using adds_add o (.text lineBreak.text)
  | delimiters previous next =>
    obtain rfl : o = o' := by simpa [kind] using read
    exact .nothing o
  | tag name tagKind => exact adds_readTag margin (by simpa [kind] using read)

theorem adds_indented (o : Outline) (indent : String) (line : Line) :
    Adds o (if line.standalone || indent.isEmpty then o else o.add (.text indent))
      (if line.standalone then [] else [.text indent]) := by
  cases line.standalone with
  | true => exact .nothing o
  | false =>
    by_cases empty : indent = ""
    · subst empty
      have same := alike_empty.append_left o.pieces
      rwa [List.append_nil] at same
    · simpa [empty, Statement.pieces] using adds_add o (.text indent)

end Outline

/-- What does not contribute to the output says nothing. -/
theorem Line.flatMap_emitted (indent : String) (line : Line) :
    line.emitted.flatMap (line.piecesOf indent) = line.tokens.flatMap (line.piecesOf indent) := by
  have silent : ∀ t, line.emits t = false → line.piecesOf indent t = [] := by
    intro t hidden
    obtain ⟨alone, no_tag⟩ : line.standalone = true ∧ t.token.isTag = false := by
      simpa [emits, Bool.or_eq_false_iff] using hidden
    unfold piecesOf
    cases kind : t.token <;> simp_all [Token.isTag]
  rw [emitted]
  induction line.tokens with
  | nil => rfl
  | cons t rest ih =>
    rw [List.filter_cons, List.flatMap_cons]
    cases shown : line.emits t with
    | true => simp [ih]
    | false => simp [ih, silent t shown]

theorem Outline.adds_readLine {o o' : Outline} {indent : String} {line : Line}
    (margin : line.standalone = true → line.indent = line.blanks) (read : o.readLine indent line = .ok o') :
    Adds o o' (line.pieces indent) := by
  have tokens : ∀ t ∈ line.emitted, ∀ u v, readToken indent line u t = .ok v → Adds u v (line.piecesOf indent t) :=
    fun t member u v one => adds_readToken margin (List.mem_filter.mp member).2 one
  have all := (adds_indented o indent line).trans (.foldlM tokens read)
  rwa [Line.flatMap_emitted] at all

theorem alike_of_readLines {lines : List Line} {indent : String} {stmts : List Statement}
    (margins : ∀ line ∈ lines, line.standalone = true → line.indent = line.blanks)
    (read : readLines indent lines = .ok stmts) :
    Alike (Statement.piecesAll stmts) (lines.flatMap (·.pieces indent)) := by
  obtain ⟨o, folded, closed, rfl⟩ := readLines_eq_ok.mp read
  have added : Outline.Adds {} o (lines.flatMap (·.pieces indent)) :=
    .foldlM (fun line member u v one => Outline.adds_readLine (margins line member) one) folded
  obtain ⟨stmts, opened⟩ := o
  obtain rfl : opened = [] := closed
  exact added

/-! ## Leading blanks -/

theorem groupLines_unfinished (tokens : List LocatedToken) :
    ∀ t ∈ (groupLines tokens).2, t.token.isNewline = false := by
  induction tokens with
  | nil => exact List.forall_mem_nil _
  | cons t r ih =>
    rw [groupLines]
    split
    · exact ih
    · next within =>
      split
      · next grouped =>
        rw [grouped] at ih
        exact List.forall_mem_cons.mpr ⟨Bool.eq_false_iff.mpr within, ih⟩
      · next grouped =>
        rw [grouped] at ih
        exact ih

/-- Only the last token of a line is a line break. -/
theorem isNewline_of_mem_dropLast {source : String} {line : Line} (member : line ∈ (layout source).lines) :
    ∀ t ∈ line.tokens.dropLast, t.token.isNewline = false := by
  have listed : line ∈ (groupLines (tokenize source).tokens).1 ∨ line = ⟨(groupLines (tokenize source).tokens).2⟩ := by
    simp only [layout] at member
    split at member
    · exact .inl (by simpa using member)
    · simpa using member
  rcases listed with complete | rfl
  · obtain ⟨front, last, tokens, _, inside⟩ := groupLines_complete _ line complete
    rw [tokens, List.dropLast_concat]
    exact inside
  · exact fun t inside => groupLines_unfinished _ t (List.mem_of_mem_dropLast inside)

/-- The tokens of a line stand in a row in the source. -/
theorem exists_around_line {source : String} {line : Line} (member : line ∈ (layout source).lines) :
    ∃ before after, (tokenize source).tokens = before ++ (line.tokens ++ after) := by
  obtain ⟨unfinished, all⟩ := Fragment.Extraction.tokens_of_layout source
  obtain ⟨earlier, later, lines⟩ := List.append_of_mem member
  refine ⟨earlier.flatMap (·.tokens), later.flatMap (·.tokens) ++ unfinished, ?_⟩
  rw [all, lines]
  simp

theorem WrittenIn.takeWhile_isBlank {d : Delimiters} {token : Token} {raw : List Char} (written : WrittenIn d token raw)
    (tag : token.isTag = true) (r : List Char) : (raw ++ r).takeWhile isBlank = [] := by
  obtain ⟨inner, rfl⟩ := written.marked tag
  obtain ⟨mark, others, marker⟩ := List.exists_cons_of_ne_nil d.opening_valid.1
  have significant := (d.opening_valid.2 mark (by simp [marker])).1
  simp [marker, significant]

namespace Line

variable {source : String} {line : Line}

theorem text_of_role {token : Token} (blank : role token = .blank) (no_break : token.isNewline = false) :
    ∃ content, token = .text content ∧ ∀ c ∈ content.toList, isBlank c = true := by
  cases token with
  | text content =>
    rw [role] at blank
    split at blank
    · next all => exact ⟨content, rfl, by simpa [Token.isBlank] using all⟩
    · cases blank
  | newline lineBreak => cases no_break
  | delimiters previous next => cases blank
  | tag name kind =>
    rw [role] at blank
    split at blank <;> cases blank

theorem isTag_of_role {token : Token} (tag : role token = .tag) : token.isTag = true := by
  cases token with
  | text content =>
    rw [role] at tag
    split at tag <;> cases tag
  | newline lineBreak => cases tag
  | _ => rfl

/-- Before the tag of a line that stands alone there is one text, if anything. -/
theorem before_tag (member : line ∈ (layout source).lines) (alone : line.standalone = true) :
    ∃ t back, role t.token = .tag ∧ (line.tokens = t :: back ∨
      ∃ u content, u.token = .text content ∧ (∀ c ∈ content.toList, isBlank c = true) ∧ line.tokens = u :: t :: back) := by
  obtain ⟨t, inside, tag⟩ := exists_tag_of_standalone alone
  obtain ⟨front, back, tokens⟩ := List.append_of_mem inside
  have blank := blank_beside_tag alone tokens tag
  have no_break := isNewline_of_mem_dropLast member
  rw [tokens, List.dropLast_append_cons] at no_break
  have texts : ∀ u ∈ front, ∃ content, u.token = .text content ∧ ∀ c ∈ content.toList, isBlank c = true :=
    fun u listed => text_of_role (blank u (List.mem_append_left _ listed)) (no_break u (List.mem_append_left _ listed))
  refine ⟨t, back, tag, ?_⟩
  cases front with
  | nil => exact .inl tokens
  | cons u others =>
    obtain ⟨content, text, all⟩ := texts u (by simp)
    cases others with
    | nil => exact .inr ⟨u, content, text, all, tokens⟩
    | cons v others =>
      -- Two texts never stand side by side.
      obtain ⟨before, after, row⟩ := exists_around_line member
      obtain ⟨other, second, _⟩ := texts v (by simp)
      rw [tokens] at row
      have first := (recognised_at row).apart content text v (by simp)
      exact absurd second (first other)

/-- The text before the tag of a line that stands alone is the blanks that the line begins with. -/
theorem indent_eq_blanks (member : line ∈ (layout source).lines) (alone : line.standalone = true) :
    line.indent = line.blanks := by
  obtain ⟨before, after, row⟩ := exists_around_line member
  obtain ⟨t, back, tag, tokens | ⟨u, content, text, all, tokens⟩⟩ := before_tag member alone
  · rw [tokens] at row
    have first := (recognised_at row).written.takeWhile_isBlank (isTag_of_role tag) (rawText back)
    have no_indent : line.indent = "" := by
      have is_tag := isTag_of_role tag
      obtain ⟨token, _, _, _⟩ := t
      cases token with
      | text content => cases is_tag
      | _ => simp [indent, tokens, alone]
    rw [no_indent, blanks, tokens, rawText_cons, first]
  · rw [tokens] at row
    have written := (recognised_at row).written
    have raw : u.raw.toList = content.toList := by
      rw [text] at written
      generalize u.raw.toList = raw at written
      cases written
      rfl
    have next : (tokenize source).tokens = (before ++ [u]) ++ t :: (back ++ after) := by simpa using row
    have first := (recognised_at next).written.takeWhile_isBlank (isTag_of_role tag) (rawText back)
    have whole : line.indent = content := by
      obtain ⟨token, _, _, _⟩ := u
      obtain rfl : token = .text content := text
      simp [indent, tokens, alone]
    rw [whole, blanks, tokens, rawText_cons, raw, rawText_cons, List.takeWhile_append_of_pos all, first]
    simp

end Line

/-- The statements of a source say what the tokens in its lines say, in their order: the same marks with the same
texts between them. -/
theorem ofSource_in_order {source indent : String} {stmts : List Statement}
    (parsed : Statement.ofSource source indent = .ok stmts) :
    (layout source).lines.flatMap (·.tokens) = (tokenize source).tokens ∧
      separate (Statement.piecesAll stmts) = separate ((layout source).lines.flatMap (·.pieces indent)) := by
  obtain ⟨clean, read⟩ := ofSource_eq_ok.mp parsed
  have margins : ∀ line ∈ (layout source).lines, line.standalone = true → line.indent = line.blanks :=
    fun line member alone => line.indent_eq_blanks member alone
  exact ⟨tokens_of_lines clean, (alike_of_readLines margins read).separate_eq⟩

/-- A section around an inclusion that stands alone, closed on a line that does not. -/
def listSource : String := "\x7b\x7b#a\x7d\x7d\n  \x7b\x7b>p\x7d\x7d\n\x7b\x7b/a\x7d\x7d\x7b\x7b! end \x7d\x7d\n"

def listStatements : List Statement :=
  [.sect "a" false [.inclusion "p" ">   " ⟨2, 3⟩, .text "> "] ⟨1, 1⟩, .text "\n"]

theorem list_in_order :
    Statement.ofSource listSource "> " = .ok listStatements ∧
      (layout listSource).lines.flatMap (·.tokens) = (tokenize listSource).tokens ∧
      separate (Statement.piecesAll listStatements) =
        separate ((layout listSource).lines.flatMap (·.pieces "> ")) := by
  have parsed : Statement.ofSource listSource "> " = .ok listStatements := by cbv
  exact ⟨parsed, ofSource_in_order parsed⟩

end Mustache

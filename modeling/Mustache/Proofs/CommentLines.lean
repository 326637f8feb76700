import Mustache.Proofs.Displacement
import Mustache.Proofs.Indentation

/-!
# Comment lines

A line of its own with a comment, put in where a line of a source begins, leaves the compilation as it is
(`comment_line_invisible`). The tokens before it and behind it are read as without it, the comment stands alone on
its line, be it spread over several, and so the line says nothing.
-/

namespace Mustache
open Text

/-! ## Places for a line -/

/-- Where a line of a source begins: at its first byte, or behind a line that a line break ends. -/
def LineBoundary (source : String) (offset : Nat) : Prop :=
  offset = 0 ∨ ∃ line ∈ (layout source).lines, (∃ t ∈ line.tokens.getLast?, t.token.isNewline = true) ∧ offset = line.stop

/-- The delimiters in force at a byte offset of a source. -/
def delimitersAt (source : String) (offset : Nat) : Delimiters :=
  activeAfter .standard ((tokenize source).tokens.filter (·.start < offset))

/-- A line with a comment between blanks. The first closing marker behind the opening one ends the comment. -/
structure CommentLine (d : Delimiters) where
  before : String := ""
  body : String
  after : String := ""
  lineBreak : LineBreak := .lf
  before_margin : Margin before := by decide
  after_margin : Margin after := by decide
  closed : breakOn d.closing.toList ('!' :: (body.toList ++ d.closing.toList)) = some ('!' :: body.toList, [])

/-- A comment line as it is written. -/
def CommentLine.text {d : Delimiters} (line : CommentLine d) : List Char :=
  line.before.toList ++ (d.opening.toList ++ '!' :: (line.body.toList ++ d.closing.toList)) ++
    (line.after.toList ++ line.lineBreak.text.toList)

/-- A source with a comment line at a byte offset. -/
def withComment (source : String) (offset : Nat) (line : CommentLine (delimitersAt source offset)) : String :=
  String.ofList (insertAt offset line.text source.toList)

section

variable {a b : List LocatedToken} {n k m : Nat}

theorem LocatedToken.start_lt_stop {t : LocatedToken} (filled : t.raw ≠ "") : t.start < t.stop := by
  obtain ⟨c, r, text⟩ := List.exists_cons_of_ne_nil (mt String.toList_eq_nil_iff.mp filled)
  rw [stop, text, bytes]
  exact Nat.lt_add_of_pos_right (Nat.add_pos_left c.utf8Size_pos _)

theorem Tiles.start_lt (tiles : Tiles n a m) : ∀ t ∈ a, t.start < m := by
  induction tiles with
  | nil => exact List.forall_mem_nil _
  | cons _ filled rest ih =>
    exact List.forall_mem_cons.mpr ⟨Nat.lt_of_lt_of_le (LocatedToken.start_lt_stop filled) rest.le, ih⟩

theorem Tiles.le_start (tiles : Tiles n a m) : ∀ t ∈ a, n ≤ t.start := by
  induction tiles with
  | nil => exact List.forall_mem_nil _
  | @cons n stop t tokens starts filled rest ih =>
    refine List.forall_mem_cons.mpr ⟨starts.ge, fun u member => ?_⟩
    have later := ih u member
    rw [LocatedToken.stop] at later
    omega

/-- The tokens that start before a place where a token ends are those up to it. -/
theorem Tiles.filter_start (before : Tiles n a k) (behind : Tiles k b m) : (a ++ b).filter (·.start < k) = a := by
  rw [List.filter_append, List.filter_eq_self.mpr, List.filter_eq_nil_iff.mpr, List.append_nil]
  · intro t member
    simpa using behind.le_start t member
  · intro t member
    simpa using before.start_lt t member

end

/-- A source is cut where a line begins: the lines before are read whole, with the delimiters that are then in force. -/
theorem LineBoundary.cut {source : String} {offset : Nat} (boundary : LineBoundary source offset) :
    ∃ (front : List Line) (m : Cursor), (∀ line ∈ front, line.Complete) ∧
      Cursor.Reads { rest := source.toList } (front.flatMap (·.tokens)) m ∧ m.offset = offset ∧
      m.delimiters = delimitersAt source offset := by
  have reads := tokenize_reads source
  suffices ∃ (front : List Line) (back : List LocatedToken), (∀ line ∈ front, line.Complete) ∧
      (tokenize source).tokens = front.flatMap (·.tokens) ++ back ∧
      ∀ k, Tiles 0 (front.flatMap (·.tokens)) k → k = offset by
    obtain ⟨front, back, complete, tokens, ends⟩ := this
    rw [tokens] at reads
    obtain ⟨m, before, behind⟩ := reads.split
    have same : m.offset = offset := ends _ before.tiles
    refine ⟨front, m, complete, before, same, ?_⟩
    rw [delimitersAt, tokens, ← same, before.tiles.filter_start behind.tiles, before.delimiters_eq]
  rcases boundary with rfl | ⟨line, member, ⟨last, at_end, break_⟩, rfl⟩
  · refine ⟨[], (tokenize source).tokens, List.forall_mem_nil _, rfl, fun k tiles => ?_⟩
    cases tiles
    rfl
  · obtain ⟨unfinished, all⟩ := Fragment.Extraction.tokens_of_layout source
    obtain ⟨earlier, later, lines⟩ := List.append_of_mem member
    obtain ⟨init, tokens⟩ := List.getLast?_eq_some_iff.mp at_end
    have whole : line.Complete := by
      refine ⟨init, last, tokens, break_, ?_⟩
      have inside := isNewline_of_mem_dropLast member
      rwa [tokens, List.dropLast_concat] at inside
    refine ⟨earlier ++ [line], later.flatMap (·.tokens) ++ unfinished, ?_, ?_, fun k tiles => ?_⟩
    · exact List.forall_mem_append.mpr ⟨layout_complete lines, List.forall_mem_singleton.mpr whole⟩
    · rw [all, lines]
      simp
    · rw [List.flatMap_append, List.flatMap_singleton] at tiles
      exact tiles.stop_line whole.ne_nil

/-! ## The comment line -/

namespace Text

/-- A text that begins with no blank begins so when it is trimmed. -/
theorem trim_cons {c : Char} (significant : isBlank c = false) (cs : List Char) : ∃ r, trim (c :: cs) = c :: r := by
  refine ⟨trimEnd cs, ?_⟩
  have last : [c].dropWhile isBlank = [c] := by simp [significant]
  rw [trim, trimStart, List.dropWhile_cons_of_neg (by simp [significant]), trimEnd, trimEnd, List.reverse_cons,
    List.dropWhile_append, last]
  split
  · next nothing => simp [List.isEmpty_iff.mp nothing]
  · simp

end Text

section

variable {d : Delimiters} {c : Cursor} {w r body : List Char} {margin : String}

/-- A comment is read up to the first closing marker. -/
theorem lexeme_comment (closed : breakOn d.closing.toList ('!' :: (body ++ d.closing.toList)) = some ('!' :: body, []))
    (p : Position) (r : List Char) : ∃ name raw,
      lexeme d p (d.opening.toList ++ '!' :: (body ++ d.closing.toList) ++ r) = .ok ⟨.tag name .comment, raw, r⟩ := by
  have plain : isBlank '!' = false := by decide
  have first : (trimStart ('!' :: (body ++ d.closing.toList) ++ r)).head? = some '!' := by simp [trimStart, plain]
  have found := breakOn_append closed r
  rw [← List.append_assoc, List.cons_append] at found
  obtain ⟨name, trimmed⟩ := trim_cons plain body
  have sigil : Lexeme.readSigil (trim ('!' :: body)) = (.comment, trim name) := by rw [trimmed]; rfl
  obtain ⟨raw, read⟩ := (Lexeme.plainTag_of_found (p := p) found).1 (by rw [sigil]; exact fun comment => absurd rfl comment)
  rw [sigil] at read
  refine ⟨String.ofList (trim name), raw, ?_⟩
  rw [List.append_assoc, lexeme_opening, Lexeme.tag_plain first (by decide) (by decide)]
  exact read

/-- Blanks are read as blank texts. -/
theorem blank_of_textOf {copies : List LocatedToken} (same : copies.map (·.content) = textOf margin)
    (blank : ∀ c ∈ margin.toList, isBlank c = true) :
    ∀ t ∈ copies, Line.role t.token = .blank ∧ t.token.isNewline = false := by
  intro t member
  have listed : t.content ∈ textOf margin := same ▸ List.mem_map_of_mem member
  unfold textOf at listed
  split at listed
  · cases listed
  · have token : t.token = .text margin := congrArg Prod.fst (List.mem_singleton.mp listed)
    rw [token]
    exact ⟨if_pos (List.all_eq_true.mpr blank), rfl⟩

/-- Blanks at the end of a line, up to and with its line break. -/
theorem Cursor.Reads.line_end (blank : ∀ x ∈ w, isBlank x = true ∧ x ≠ '\n') (whole : c.rest = w ++ '\n' :: r) :
    ∃ texts last m, Cursor.Reads c (texts ++ [last]) m ∧
      (∀ t ∈ texts, Line.role t.token = .blank ∧ t.token.isNewline = false) ∧ last.token.isNewline = true ∧
      m.rest = r ∧ m.delimiters = c.delimiters := by
  -- A carriage return before the line feed belongs to the line break.
  suffices general : ∀ (w : List Char) (l : Lexeme), (∀ x ∈ w, isBlank x = true ∧ x ≠ '\n') →
      (w.getLast? = some '\r' → l.raw.head? ≠ some '\n') → l.token.isNewline = true → l.rest = r →
      Lexeme.lineBreak? (l.raw ++ r) = some l → c.rest = w ++ (l.raw ++ r) →
      ∃ texts last m, Cursor.Reads c (texts ++ [last]) m ∧
        (∀ t ∈ texts, Line.role t.token = .blank ∧ t.token.isNewline = false) ∧ last.token.isNewline = true ∧
        m.rest = r ∧ m.delimiters = c.delimiters by
    by_cases carriage : w.getLast? = some '\r'
    · obtain ⟨u, rfl⟩ := List.getLast?_eq_some_iff.mp carriage
      have inside : ∀ x ∈ u, isBlank x = true ∧ x ≠ '\n' := fun x member => blank x (List.mem_append_left _ member)
      exact general u ⟨.newline .crlf, ['\r', '\n'], r⟩ inside (by simp) rfl rfl rfl (by simpa using whole)
    · exact general w ⟨.newline .lf, ['\n'], r⟩ blank (fun last => absurd last carriage) rfl rfl rfl whole
  intro w l blank apart break_ rest found whole
  have ends : Lexeme.endsText c.delimiters.opening.toList (l.raw ++ r) = true := by
    rw [Lexeme.endsText, found]
    rfl
  obtain ⟨filled, nonempty⟩ := Lexeme.lineBreak?_append found
  have head : (l.raw ++ r).head? = l.raw.head? := List.head?_append_of_ne_nil _ nonempty
  obtain ⟨texts, m, reads, contents, left, active⟩ := of_margin blank (by rwa [head]) ends whole
  have more : m.rest ≠ [] := by simp [left, nonempty]
  have read : lexeme m.delimiters m.position m.rest = .ok l := by rw [left, lexeme, found]
  have texts_blank := blank_of_textOf contents (by simpa using fun x member => (blank x member).1)
  refine ⟨texts, _, _, reads.append (.cons more read .nil), texts_blank, break_, rest, ?_⟩
  rw [← active]
  unfold Cursor.after
  dsimp only
  split
  · next previous next token => simp [token, Token.isNewline] at break_
  · rfl

/-- Blanks and a line break behind them are blanks and a line feed: a carriage return is a blank as well. -/
theorem ending_of_margin (blank : Margin margin) (lineBreak : LineBreak) :
    ∃ w : List Char, (∀ x ∈ w, isBlank x = true ∧ x ≠ '\n') ∧ margin.toList ++ lineBreak.text.toList = w ++ ['\n'] := by
  cases lineBreak with
  | lf => exact ⟨margin.toList, blank, rfl⟩
  | crlf =>
    refine ⟨margin.toList ++ ['\r'], List.forall_mem_append.mpr ⟨blank, ?_⟩, ?_⟩
    · exact List.forall_mem_singleton.mpr ⟨by decide, by decide⟩
    · rw [List.append_assoc]
      rfl

/-- A comment among blanks. -/
def Line.Remark (row : Line) : Prop :=
  ∃ front t back body, row.tokens = front ++ t :: back ∧ t.token = .tag body .comment ∧
    ∀ u ∈ front ++ back, role u.token = .blank

theorem role_of_isNewline {t : LocatedToken} (break_ : t.token.isNewline = true) : Line.role t.token = .blank := by
  cases token : t.token <;> simp_all [Token.isNewline, Line.role]

/-- A comment line is read as one line. -/
theorem CommentLine.reads (line : CommentLine d) (active : c.delimiters = d) (whole : c.rest = line.text ++ r) :
    ∃ (row : Line) (m : Cursor), Cursor.Reads c row.tokens m ∧ row.Complete ∧ row.Remark ∧ m.rest = r ∧
      m.delimiters = d := by
  obtain ⟨before, body, after, lineBreak, before_margin, after_margin, closed⟩ := line
  subst active
  obtain ⟨w, blank, ending⟩ := ending_of_margin after_margin lineBreak
  let inner : List Char := c.delimiters.opening.toList ++ '!' :: (body.toList ++ c.delimiters.closing.toList)
  have cut : c.rest = before.toList ++ (inner ++ (w ++ '\n' :: r)) := by
    rw [whole, CommentLine.text, ending]
    simp [inner]
  have marker : c.delimiters.opening.toList <+: inner ++ (w ++ '\n' :: r) :=
    (List.prefix_append _ _).trans (List.prefix_append inner _)
  have ends := endsText_of_marker marker
  have parted : Parted c.delimiters (inner ++ (w ++ '\n' :: r)) := .inr marker
  obtain ⟨texts, m, first, contents, left, active⟩ := Cursor.Reads.of_margin before_margin (fun _ => parted.head?_ne) ends cut
  obtain ⟨name, raw, read⟩ := lexeme_comment closed m.position (w ++ '\n' :: r)
  have here : lexeme m.delimiters m.position m.rest = .ok ⟨.tag name .comment, raw, w ++ '\n' :: r⟩ := by
    rw [left, active]
    exact read
  have more : m.rest ≠ [] := by
    rw [left]
    intro nothing
    rw [nothing, List.prefix_nil] at marker
    exact c.delimiters.opening_valid.1 marker
  let comment : Lexeme := ⟨.tag name .comment, raw, w ++ '\n' :: r⟩
  obtain ⟨others, last, m', behind, blanks, break_, rest, kept⟩ :=
    Cursor.Reads.line_end (c := m.after comment) blank rfl
  have texts_blank := blank_of_textOf contents fun x member => (before_margin x (by simpa using member)).1
  refine ⟨⟨texts ++ m.locate comment :: (others ++ [last])⟩, m', first.append (.cons more here behind), ?_, ?_, rest, ?_⟩
  · refine ⟨texts ++ m.locate comment :: others, last, by simp, break_, ?_⟩
    refine List.forall_mem_append.mpr ⟨fun t member => (texts_blank t member).2, List.forall_mem_cons.mpr ⟨rfl, ?_⟩⟩
    exact fun t member => (blanks t member).2
  · refine ⟨texts, m.locate comment, others ++ [last], name, rfl, rfl, ?_⟩
    refine List.forall_mem_append.mpr ⟨fun t member => (texts_blank t member).1, List.forall_mem_append.mpr ⟨?_, ?_⟩⟩
    · exact fun t member => (blanks t member).1
    · exact List.forall_mem_singleton.mpr (role_of_isNewline break_)
  · rw [kept]
    exact active

end

/-! ## What the lines say -/

namespace Line.Remark

variable {row : Line}

theorem standalone (remark : row.Remark) : row.standalone = true := by
  obtain ⟨front, t, back, body, tokens, comment, blank⟩ := remark
  exact standalone_of_tag tokens (Line.role_comment comment) blank

theorem not_isTag_of_blank {t : LocatedToken} (blank : role t.token = .blank) : ¬ t.token.isTag = true := by
  intro tag
  cases token : t.token with
  | tag name kind =>
    rw [token, role] at blank
    split at blank <;> cases blank
  | delimiters previous next =>
    rw [token] at blank
    cases blank
  | _ =>
    rw [token] at tag
    cases tag

/-- A line with nothing but a comment says nothing. -/
theorem readLine (remark : row.Remark) (indent : String) (o : Outline) : o.readLine indent row = .ok o := by
  have alone := remark.standalone
  obtain ⟨front, t, back, body, tokens, comment, blank⟩ := remark
  obtain ⟨before, behind⟩ := List.forall_mem_append.mp blank
  have emitted : row.emitted = [t] := by
    rw [Line.emitted_of_standalone alone, tokens, List.filter_append, List.filter_cons_of_pos (by rw [comment]; rfl),
      List.filter_eq_nil_iff.mpr fun u member => not_isTag_of_blank (before u member),
      List.filter_eq_nil_iff.mpr fun u member => not_isTag_of_blank (behind u member)]
    rfl
  rw [Outline.readLine, emitted, alone]
  simp [Outline.readToken, comment, Outline.readTag]

end Line.Remark

/-- The lines of a reading: those that a line break ends, and an unfinished last one that no fault cuts off. -/
def Tokenization.lines (r : Tokenization) : List Line :=
  (groupLines r.tokens).1 ++ if r.failure.isSome || (groupLines r.tokens).2.isEmpty then [] else [⟨(groupLines r.tokens).2⟩]

namespace Tokenization

variable {r r' : Tokenization} {front : List Line}

theorem lines_behind (complete : ∀ line ∈ front, line.Complete) (r : Tokenization) :
    lines { r with tokens := front.flatMap (·.tokens) ++ r.tokens } = front ++ r.lines := by
  have grouped : groupLines (front.flatMap (·.tokens) ++ r.tokens) =
      (front ++ (groupLines r.tokens).1, (groupLines r.tokens).2) := by
    induction front with
    | nil => rfl
    | cons line rest ih =>
      obtain ⟨first, others⟩ := List.forall_mem_cons.mp complete
      rw [List.flatMap_cons, List.append_assoc, groupLines_line first, ih others]
      rfl
  simp [lines, grouped]

theorem lines_congr (tokens : r'.tokens.map (·.content) = r.tokens.map (·.content))
    (failure : r'.failure.isSome = r.failure.isSome) : r'.lines.map (·.contents) = r.lines.map (·.contents) := by
  obtain ⟨lines, unfinished⟩ := groupLines_congr (fun _ _ same => congrArg Prod.fst same) tokens
  have as_many := congrArg List.isEmpty unfinished
  rw [List.isEmpty_map, List.isEmpty_map] at as_many
  rw [Tokenization.lines, Tokenization.lines, List.map_append, List.map_append, failure, as_many]
  congr 1
  split
  · rfl
  · exact congrArg (fun tokens => [tokens]) unfinished

end Tokenization

/-- What the lines of a source say comes to the fault that ends the reading, or to its statements. -/
def settle (failure : Option SyntaxError) (o : Outline) : Except Fault (List Statement) :=
  match failure with
  | some cause => .error (.unreadable cause)
  | none => o.finish

theorem ofSource_eq (source indent : String) : Statement.ofSource source indent =
    ((tokenize source).lines.foldlM (Outline.readLine indent) {} >>= settle (tokenize source).failure) := rfl

/-- Lines that hold the same, and faults that differ in a position only, come to the same up to positions. -/
theorem settled_alike {lines lines' : List Line} {failure failure' : Option SyntaxError}
    (contents : lines'.map (·.contents) = lines.map (·.contents))
    (faults : failure'.map SyntaxError.unplaced = failure.map SyntaxError.unplaced) (indent : String) :
    unplacedResult Statement.unplacedAll (lines'.foldlM (Outline.readLine indent) {} >>= settle failure') =
      unplacedResult Statement.unplacedAll (lines.foldlM (Outline.readLine indent) {} >>= settle failure) := by
  have folded : unplacedResult Outline.unplaced (lines'.foldlM (Outline.readLine indent) {}) =
      unplacedResult Outline.unplaced (lines.foldlM (Outline.readLine indent) {}) := by
    rw [Outline.unplaced_foldlM (Outline.unplaced_readLine indent), Outline.unplaced_foldlM (Outline.unplaced_readLine indent),
      Line.map_congr_contents Line.unplaced_congr contents]
  have settled : ∀ o o' : Outline, o'.unplaced = o.unplaced →
      unplacedResult Statement.unplacedAll (settle failure' o') = unplacedResult Statement.unplacedAll (settle failure o) := by
    intro o o' same
    cases failure with
    | none =>
      obtain rfl := Option.map_eq_none_iff.mp faults
      rw [settle, settle, Outline.unplaced_finish, Outline.unplaced_finish, same]
    | some cause =>
      obtain ⟨cause', rfl, alike⟩ := Option.map_eq_some_iff.mp faults
      exact congrArg (fun cause => Except.error (Fault.unreadable cause)) alike
  revert folded
  cases lines.foldlM (Outline.readLine indent) {} with
  | ok o =>
    cases lines'.foldlM (Outline.readLine indent) {} with
    | ok o' => exact fun folded => settled o o' (Except.ok.inj folded)
    | error fault => nofun
  | error fault =>
    cases lines'.foldlM (Outline.readLine indent) {} with
    | ok o' => nofun
    | error fault' => exact fun folded => congrArg Except.error (Except.error.inj folded)

/-! ## Sources with a comment line -/

section

variable {source : String} {offset : Nat} {line : CommentLine (delimitersAt source offset)}

/-- Complete lines end with a line break. -/
theorem getLast_of_complete {lines : List Line} (complete : ∀ line ∈ lines, line.Complete) :
    ∀ t ∈ (lines.flatMap (·.tokens)).getLast?, t.token.isNewline = true := by
  rcases List.eq_nil_or_concat lines with rfl | ⟨front, last, rfl⟩
  · nofun
  · rw [List.concat_eq_append] at complete ⊢
    obtain ⟨init, t, tokens, break_, _⟩ := complete last (by simp)
    simp [tokens, break_]

theorem closed_of_complete {lines : List Line} (complete : ∀ line ∈ lines, line.Complete) :
    Closed (lines.flatMap (·.tokens)) := by
  intro t last content text
  have break_ := getLast_of_complete complete t last
  simp [text, Token.isNewline] at break_

/-- The lines of a source with a comment line: those before it, the comment, and those behind it. -/
theorem lines_withComment (boundary : LineBoundary source offset) (line : CommentLine (delimitersAt source offset)) :
    ∃ (front back front' back' : List Line) (row : Line), (tokenize source).lines = front ++ back ∧
      (tokenize (withComment source offset line)).lines = front' ++ row :: back' ∧ row.Remark ∧
      front'.map (·.contents) = front.map (·.contents) ∧ back'.map (·.contents) = back.map (·.contents) ∧
      (tokenize (withComment source offset line)).failure.map SyntaxError.unplaced =
        (tokenize source).failure.map SyntaxError.unplaced := by
  obtain ⟨front, m, complete, reads, at_offset, active⟩ := boundary.cut
  have size : bytes (rawText (front.flatMap (·.tokens))) = offset := by rw [← at_offset, reads.place.1]
  have whole : rawText (front.flatMap (·.tokens)) ++ m.rest = source.toList := reads.rawText_append_rest
  have inserted : (withComment source offset line).toList =
      rawText (front.flatMap (·.tokens)) ++ (line.text ++ m.rest) := by
    have at_cut := insertAt_append (rawText (front.flatMap (·.tokens))) m.rest line.text
    rw [size, whole] at at_cut
    rw [withComment, String.toList_ofList, at_cut, List.append_assoc]
  obtain ⟨copies, m₁, again, contents, rest, kept⟩ := reads.again_active
    (d := { rest := (withComment source offset line).toList }) (.inr (closed_of_complete complete)) rfl inserted
  obtain ⟨row, m₂, read_row, row_complete, remark, left, stays⟩ := line.reads (kept.trans active) rest
  -- The lines before the comment are found again in their copies.
  obtain ⟨same, none_left⟩ := groupLines_congr (fun _ _ same => congrArg Prod.fst same) contents
  rw [groupLines_flatMap complete] at same none_left
  have flat := groupLines_flatten copies
  rw [List.map_eq_nil_iff.mp none_left, List.append_nil] at flat
  have copies_complete := groupLines_complete copies
  obtain ⟨tokens, failure⟩ := Cursor.run_unplaced left (stays.trans active.symm)
  have run : tokenize source = { m.run with tokens := front.flatMap (·.tokens) ++ m.run.tokens } := reads.run_eq
  have run' : tokenize (withComment source offset line) =
      { m₂.run with tokens := ((groupLines copies).1 ++ [row]).flatMap (·.tokens) ++ m₂.run.tokens } := by
    rw [List.flatMap_append, flat, List.flatMap_singleton]
    exact (again.append read_row).run_eq
  refine ⟨front, m.run.lines, (groupLines copies).1, m₂.run.lines, row, ?_, ?_, remark, same, ?_, ?_⟩
  · rw [run, Tokenization.lines_behind complete]
  · have all_complete := List.forall_mem_append.mpr ⟨copies_complete, List.forall_mem_singleton.mpr row_complete⟩
    rw [run', Tokenization.lines_behind all_complete, List.append_assoc]
    rfl
  · refine Tokenization.lines_congr tokens ?_
    have known := congrArg Option.isSome failure
    rwa [Option.isSome_map, Option.isSome_map] at known
  · rw [run, run']
    exact failure

/-- A comment line in a source says nothing. -/
theorem ofSource_withComment (boundary : LineBoundary source offset) (line : CommentLine (delimitersAt source offset))
    (indent : String) : unplacedResult Statement.unplacedAll (Statement.ofSource (withComment source offset line) indent) =
      unplacedResult Statement.unplacedAll (Statement.ofSource source indent) := by
  obtain ⟨front, back, front', back', row, lines, lines', remark, before, behind, faults⟩ := lines_withComment boundary line
  have silent : (front' ++ row :: back').foldlM (Outline.readLine indent) {} =
      (front' ++ back').foldlM (Outline.readLine indent) {} := by
    rw [List.foldlM_append, List.foldlM_append]
    congr 1
    funext o
    rw [List.foldlM_cons, remark.readLine]
    rfl
  rw [ofSource_eq, ofSource_eq, lines, lines', silent]
  exact settled_alike (by rw [List.map_append, List.map_append, before, behind]) faults indent

/-- A line with nothing but a comment can be put in wherever a line begins: a source with it compiles to the same
program as without it, or both compilations fail with the same error up to its position. -/
theorem comment_line_invisible (boundary : LineBoundary source offset) (line : CommentLine (delimitersAt source offset))
    (c : Compiler) (name : String) :
    Compiler.outcome (c.compile (withComment source offset line) name) = Compiler.outcome (c.compile source name) :=
  Compiler.compile_displaced (ofSource_withComment boundary line "") c name

end

/-- A list behind a change of the delimiters. -/
def memoSource : String := "\x7b\x7b=[ ]=\x7d\x7d\n[#xs]\n [this]\n[/xs]"

theorem memo_delimiters : delimitersAt memoSource 10 = { opening := "[", closing := "]" } := by cbv

/-- A comment over two lines, with markers in it that are not in force and one that opens. -/
def memoLine : CommentLine (delimitersAt memoSource 10) where
  before := " "
  body := " [x \x7d\x7d\n"
  after := "\t\r"
  closed := by
    rw [memo_delimiters]
    decide

theorem memo_with_comment : LineBoundary memoSource 10 ∧
    withComment memoSource 10 memoLine =
      "\x7b\x7b=[ ]=\x7d\x7d\n [! [x \x7d\x7d\n]\t\r\n[#xs]\n [this]\n[/xs]" ∧
    Compiler.outcome (Compiler.compile { loader := .ofDictionary [] } (withComment memoSource 10 memoLine) "memo") =
      Compiler.outcome (Compiler.compile { loader := .ofDictionary [] } memoSource "memo") := by
  have boundary : LineBoundary memoSource 10 := by
    have first : (layout memoSource).lines.head? = some ⟨[
        ⟨.delimiters .standard { opening := "[", closing := "]" }, {}, 0, "\x7b\x7b=[ ]=\x7d\x7d"⟩,
        ⟨.newline .lf, ⟨1, 10⟩, 9, "\n"⟩]⟩ := by cbv
    exact .inr ⟨_, List.mem_of_mem_head? first, ⟨_, rfl, rfl⟩, rfl⟩
  have written : withComment memoSource 10 memoLine =
      "\x7b\x7b=[ ]=\x7d\x7d\n [! [x \x7d\x7d\n]\t\r\n[#xs]\n [this]\n[/xs]" := by
    cbv
  exact ⟨boundary, written, comment_line_invisible boundary memoLine _ "memo"⟩

end Mustache

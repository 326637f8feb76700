import Mustache.Proofs.Nesting
import Mustache.Proofs.Rows

/-!
# Indentation

Reading a source with an indentation is reading a source that is indented (`indentation_is_textual`): the
indentation stands at the first byte of each of its lines (`indentLines`). It becomes a text of its own there or
a part of the first text, but for a line feed behind a carriage return, which the two make up together
(`Indented`). Nothing else is read in another way, since no marker holds a blank.
-/

namespace Mustache
open Text

/-! ## Indented sources -/

/-- Puts characters at a byte offset of a text. -/
def Text.insertAt (offset : Nat) (added cs : List Char) : List Char := takeBytes offset cs ++ added ++ dropBytes offset cs

/-- A source with an indentation at the first byte of every line. -/
def indentLines (source indent : String) : String :=
  String.ofList ((layout source).lines.foldr (fun line cs => insertAt line.start indent.toList cs) source.toList)

/-- What may indent lines: blanks other than line feeds. -/
def Margin (indent : String) : Prop := ∀ c ∈ indent.toList, isBlank c = true ∧ c ≠ '\n'

instance (indent : String) : Decidable (Margin indent) := List.decidableBAll _ _

theorem Text.insertAt_append (a b added : List Char) : insertAt (bytes a) added (a ++ b) = a ++ added ++ b := by
  rw [insertAt, takeBytes_append, dropBytes_append]

/-- Insertions from the last line on do not move the lines before it. -/
theorem foldr_insertAt (indent : List Char) {lines : List Line} (filled : ∀ line ∈ lines, line.tokens ≠ []) {n m : Nat}
    (tiles : Tiles n (lines.flatMap (·.tokens)) m) (front : List Char) (size : bytes front = n) :
    lines.foldr (fun line cs => insertAt line.start indent cs) (front ++ rawText (lines.flatMap (·.tokens))) =
      front ++ lines.flatMap fun line => indent ++ rawText line.tokens := by
  induction lines generalizing n front with
  | nil => rfl
  | cons line rest ih =>
    obtain ⟨first, others⟩ := List.forall_mem_cons.mp filled
    rw [List.flatMap_cons] at tiles
    have starts := tiles.start_line first
    obtain ⟨k, here, behind⟩ := tiles.split
    have next : bytes (front ++ rawText line.tokens) = k := by rw [bytes_append, size, here.length_eq]
    have later := ih others behind (front ++ rawText line.tokens) next
    rw [List.append_assoc] at later
    rw [List.foldr_cons, List.flatMap_cons, rawText_append, later, ← starts, ← size, List.append_assoc front,
      insertAt_append, List.flatMap_cons, List.append_assoc, List.append_assoc]

theorem toList_indentLines {source : String} (clean : (layout source).failure = none) (indent : String) :
    (indentLines source indent).toList =
      (layout source).lines.flatMap fun line => indent.toList ++ rawText line.tokens := by
  have tiles : Tiles 0 (tokenize source).tokens (tokenize source).final.offset := (tokenize_reads source).tiles
  have whole : rawText (tokenize source).tokens = source.toList := by
    have covered := ((tokenize_covers source).complete clean).2
    rw [join_raw] at covered
    simpa using congrArg String.toList covered
  rw [← tokens_of_lines clean] at tiles whole
  have inserted := foldr_insertAt indent.toList (rows_of_clean clean).filled tiles [] rfl
  rw [List.nil_append, whole] at inserted
  rw [indentLines, String.toList_ofList, inserted, List.nil_append]

section

variable {d : Delimiters} {margin cs : List Char}

/-- Neither a marker nor a line break begins with a blank, unless it is a line break of two characters. -/
theorem endsText_blank (d : Delimiters) {c : Char} (blank : isBlank c = true) (feed : c ≠ '\n')
    (apart : c = '\r' → cs.head? ≠ some '\n') : Lexeme.endsText d.opening.toList (c :: cs) = false := by
  rw [Lexeme.endsText, Bool.or_eq_false_iff]
  constructor
  · unfold Lexeme.lineBreak?
    split <;> simp_all
  · rw [Bool.eq_false_iff]
    intro marker
    obtain ⟨mark, others, opening⟩ := List.exists_cons_of_ne_nil d.opening_valid.1
    have significant := (d.opening_valid.2 mark (by simp [opening])).1
    rw [opening, List.isPrefixOf_iff_prefix, List.cons_prefix_cons] at marker
    rw [marker.1, blank] at significant
    cases significant

/-- Blanks belong to the text behind them. -/
theorem spanText_margin (blank : ∀ c ∈ margin, isBlank c = true ∧ c ≠ '\n')
    (apart : margin.getLast? = some '\r' → cs.head? ≠ some '\n') :
    Lexeme.spanText d.opening.toList (margin ++ cs) =
      (margin ++ (Lexeme.spanText d.opening.toList cs).1, (Lexeme.spanText d.opening.toList cs).2) := by
  induction margin with
  | nil => rfl
  | cons c rest ih =>
    obtain ⟨first, others⟩ := List.forall_mem_cons.mp blank
    have next : c = '\r' → (rest ++ cs).head? ≠ some '\n' := by
      intro carriage
      cases rest with
      | nil => exact apart (by rw [carriage]; rfl)
      | cons other _ => simpa using (others other List.mem_cons_self).2
    have behind : rest.getLast? = some '\r' → cs.head? ≠ some '\n' := by
      intro last
      apply apart
      rw [List.getLast?_cons, last]
      rfl
    rw [List.cons_append, Lexeme.spanText, endsText_blank d first.1 first.2 next, ih others behind]
    rfl

end

/-! ## Indented lines -/

/-- A text as it is read, if there is any. -/
def textOf (content : String) : List (Token × String) := if content = "" then [] else [(.text content, content)]

/-- What a line holds, and what it holds behind an indentation. -/
inductive Indented (indent : String) : List (Token × String) → List (Token × String) → Prop where
  | joined {content raw : String} {rest : List (Token × String)} :
    Indented indent ((.text content, raw) :: rest) ((.text (indent ++ content), indent ++ raw) :: rest)
  | apart {first : Token × String} {rest : List (Token × String)} (other : ∀ content, first.1 ≠ .text content) :
    Indented indent (first :: rest) ((.text indent, indent) :: first :: rest)
  /-- A carriage return at the end of the indentation makes one line break with a line feed. -/
  | feed {before : String} (ends : indent = before ++ "\r") :
    Indented indent [(.newline .lf, "\n")] (textOf before ++ [(.newline .crlf, "\r\n")])

/-- What is active behind tokens depends on what they say. -/
theorem activeAfter_congr {a b : List LocatedToken} (same : a.map (·.content) = b.map (·.content)) (d : Delimiters) :
    activeAfter d a = activeAfter d b := by
  induction a generalizing b d with
  | nil =>
    obtain rfl := List.map_eq_nil_iff.mp same.symm
    rfl
  | cons t rest ih =>
    cases b with
    | nil => cases same
    | cons u others =>
      obtain ⟨first, later⟩ := List.cons.inj same
      have token : t.token = u.token := congrArg Prod.fst first
      rw [activeAfter, activeAfter, List.foldl_cons, List.foldl_cons, token]
      exact ih later _

/-- Behind a line feed nothing else stands in a line. -/
theorem lexeme_feed {d : Delimiters} {p : Position} {cs : List Char} {l : Lexeme} (read : lexeme d p ('\n' :: cs) = .ok l) :
    l = ⟨.newline .lf, ['\n'], cs⟩ := by
  cases read
  rfl

namespace Cursor.Reads

variable {c c' m : Cursor} {tokens : List LocatedToken} {margin cs r : List Char} {indent : String}

/-- Blanks before what ends a text are read as a text. -/
theorem of_margin (blank : ∀ x ∈ margin, isBlank x = true ∧ x ≠ '\n')
    (apart : margin.getLast? = some '\r' → cs.head? ≠ some '\n')
    (ends : Lexeme.endsText c.delimiters.opening.toList cs = true) (whole : c.rest = margin ++ cs) :
    ∃ copies m, Reads c copies m ∧ copies.map (·.content) = textOf (String.ofList margin) ∧ m.rest = cs ∧
      m.delimiters = c.delimiters := by
  by_cases empty : margin = []
  · subst empty
    exact ⟨[], c, .nil, rfl, whole, rfl⟩
  · have span := spanText_margin (d := c.delimiters) blank apart
    rw [spanText_of_ends ends, List.append_nil, ← whole] at span
    have read := lexeme_of_spanText c.position empty span
    have left : c.rest ≠ [] := by simp [whole, empty]
    refine ⟨_, _, .cons left read .nil, ?_, rfl, rfl⟩
    simp [textOf, empty, LocatedToken.content, Cursor.locate]

/-- Tokens that are read again leave the same delimiters in force. -/
theorem again_active {d : Cursor} (reads : Reads c tokens m) (closed : r = [] ∨ Closed tokens)
    (same : d.delimiters = c.delimiters) (whole : d.rest = rawText tokens ++ r) :
    ∃ copies d', Reads d copies d' ∧ copies.map (·.content) = tokens.map (·.content) ∧ d'.rest = r ∧
      d'.delimiters = m.delimiters := by
  obtain ⟨copies, d', again, contents, rest⟩ := reads.again closed same whole
  refine ⟨copies, d', again, contents, rest, ?_⟩
  rw [again.delimiters_eq, reads.delimiters_eq, same, activeAfter_congr contents]

/-- A text with an indentation before it is read with it. -/
theorem indented_text {l : Lexeme} (left : c.rest ≠ []) (read : lexeme c.delimiters c.position c.rest = .ok l)
    (later : Reads (c.after l) tokens m) (closed : r = [] ∨ Closed (c.locate l :: tokens)) (blank : Margin indent)
    (same : c'.delimiters = c.delimiters) (whole : c'.rest = indent.toList ++ (l.raw ++ (rawText tokens ++ r)))
    (goes_on : Lexeme.endsText c.delimiters.opening.toList (l.raw ++ (rawText tokens ++ r)) = false) :
    ∃ copies m', Reads c' copies m' ∧
      Indented indent ((c.locate l :: tokens).map (·.content)) (copies.map (·.content)) ∧
      m'.rest = r ∧ m'.delimiters = m.delimiters := by
  have filled := lexeme_raw_ne_nil left read
  obtain ⟨text, span⟩ := span_of_lexeme (first_again left read later closed c.position) goes_on
  have text : l.token = .text (String.ofList l.raw) := text
  have apart : (l.raw ++ (rawText tokens ++ r)).head? ≠ some '\n' := by
    intro feed
    obtain ⟨rest, feed⟩ := List.head?_eq_some_iff.mp feed
    simp [feed, Lexeme.endsText, Lexeme.lineBreak?] at goes_on
  have longer := spanText_margin (d := c.delimiters) blank fun _ => apart
  rw [span, ← whole, ← same] at longer
  let taken : Lexeme := ⟨.text (String.ofList (indent.toList ++ l.raw)), indent.toList ++ l.raw, rawText tokens ++ r⟩
  have first : lexeme c'.delimiters c'.position c'.rest = .ok taken :=
    lexeme_of_spanText c'.position (by simp [filled]) longer
  have more : c'.rest ≠ [] := by simp [whole, filled]
  have active : (c'.after taken).delimiters = (c.after l).delimiters := by simp [Cursor.after, taken, text, same]
  obtain ⟨copies, m', again, contents, rest, stays⟩ :=
    later.again_active (closed.imp_right Closed.tail) active rfl
  refine ⟨_, m', .cons more first again, ?_, rest, stays⟩
  have head : (c'.locate taken).content = (.text (indent ++ String.ofList l.raw), indent ++ String.ofList l.raw) := by
    simp [LocatedToken.content, Cursor.locate, taken, String.ofList_append]
  have head' : (c.locate l).content = (.text (String.ofList l.raw), String.ofList l.raw) := by
    simp [LocatedToken.content, Cursor.locate, text]
  rw [List.map_cons, List.map_cons, head, head', contents]
  exact .joined

/-- A line feed behind a carriage return is read with it. -/
theorem indented_feed {before : List Char} (blank : ∀ x ∈ before, isBlank x = true ∧ x ≠ '\n')
    (whole : c.rest = before ++ '\r' :: '\n' :: r) :
    ∃ copies m, Reads c copies m ∧
      copies.map (·.content) = textOf (String.ofList before) ++ [(.newline .crlf, "\r\n")] ∧ m.rest = r ∧
      m.delimiters = c.delimiters := by
  have ends : Lexeme.endsText c.delimiters.opening.toList ('\r' :: '\n' :: r) = true := rfl
  obtain ⟨front, k, first, margin, rest, active⟩ := of_margin blank (fun _ => by simp) ends whole
  have read : lexeme k.delimiters k.position k.rest = .ok ⟨.newline .crlf, ['\r', '\n'], r⟩ := by
    rw [rest]
    rfl
  refine ⟨_, _, first.append (.cons (by simp [rest]) read .nil), ?_, rfl, active⟩
  rw [List.map_append, margin]
  rfl

/-- A line that begins with a line feed holds nothing else. -/
theorem only_feed {l : Lexeme} {rest : List Char}
    (here : lexeme c.delimiters c.position (l.raw ++ (rawText tokens ++ r)) = .ok (l.before (rawText tokens ++ r)))
    (feed : l.raw ++ (rawText tokens ++ r) = '\n' :: rest)
    (inner : ∀ t ∈ (c.locate l :: tokens).dropLast, t.token.isNewline = false) :
    l.token = .newline .lf ∧ l.raw = ['\n'] ∧ tokens = [] ∧ r = rest := by
  rw [feed] at here
  obtain ⟨token, raw, behind⟩ := Lexeme.mk.inj (lexeme_feed here)
  have token : l.token = .newline .lf := token
  have alone : tokens = [] := by
    by_contra more
    have first := inner (c.locate l) (by simp [List.dropLast_cons_of_ne_nil more])
    simp [Cursor.locate, token, Token.isNewline] at first
  subst alone
  exact ⟨token, raw, rfl, behind⟩

/-- A line feed behind an indentation that ends with a carriage return becomes a part of a longer line break. -/
theorem indented_meeting {l : Lexeme}
    (here : lexeme c.delimiters c.position (l.raw ++ (rawText tokens ++ r)) = .ok (l.before (rawText tokens ++ r)))
    (later : Reads (c.after l) tokens m) (inner : ∀ t ∈ (c.locate l :: tokens).dropLast, t.token.isNewline = false)
    (blank : Margin indent) (same : c'.delimiters = c.delimiters)
    (whole : c'.rest = indent.toList ++ (l.raw ++ (rawText tokens ++ r)))
    (carriage : indent.toList.getLast? = some '\r') (feed : (l.raw ++ (rawText tokens ++ r)).head? = some '\n') :
    ∃ copies m', Reads c' copies m' ∧
      Indented indent ((c.locate l :: tokens).map (·.content)) (copies.map (·.content)) ∧
      m'.rest = r ∧ m'.delimiters = m.delimiters := by
  obtain ⟨before, cut⟩ := List.getLast?_eq_some_iff.mp carriage
  obtain ⟨rest, feed⟩ := List.head?_eq_some_iff.mp feed
  rw [feed, cut, List.append_assoc] at whole
  obtain ⟨token, raw, rfl, rfl⟩ := only_feed here feed inner
  cases later
  have blank_before : ∀ x ∈ before, isBlank x = true ∧ x ≠ '\n' :=
    fun x member => blank x (by simp [cut, member])
  obtain ⟨copies, m', again, contents, done, active⟩ := indented_feed blank_before whole
  refine ⟨copies, m', again, ?_, done, by simp [active, same, Cursor.after, token]⟩
  have ends_with : indent = String.ofList before ++ "\r" := by
    rw [← String.toList_inj, cut]
    simp
  have one : [c.locate l].map (·.content) = [(.newline .lf, "\n")] := by
    simp [LocatedToken.content, Cursor.locate, token, raw]
  rw [one, contents]
  exact .feed ends_with

/-- An indentation before a token that is no text becomes a text of its own. -/
theorem indented_apart {l : Lexeme} (reads : Reads c (c.locate l :: tokens) m)
    (no_text : ∀ content, l.token ≠ .text content) (closed : r = [] ∨ Closed (c.locate l :: tokens))
    (some_indent : indent ≠ "") (blank : Margin indent) (same : c'.delimiters = c.delimiters)
    (whole : c'.rest = indent.toList ++ (rawText (c.locate l :: tokens) ++ r))
    (ends : Lexeme.endsText c'.delimiters.opening.toList (rawText (c.locate l :: tokens) ++ r) = true)
    (apart : indent.toList.getLast? = some '\r' → (rawText (c.locate l :: tokens) ++ r).head? ≠ some '\n') :
    ∃ copies m', Reads c' copies m' ∧
      Indented indent ((c.locate l :: tokens).map (·.content)) (copies.map (·.content)) ∧
      m'.rest = r ∧ m'.delimiters = m.delimiters := by
  obtain ⟨front, k, before, margin, rest, active⟩ := of_margin blank apart ends whole
  obtain ⟨copies, m', again, contents, done, stays⟩ := reads.again_active closed (active.trans same) rest
  refine ⟨front ++ copies, m', before.append again, ?_, done, stays⟩
  rw [List.map_append, margin, contents, String.ofList_toList, textOf, if_neg some_indent]
  exact .apart no_text

/-- The tokens of a line are read again behind an indentation. -/
theorem indented (reads : Reads c tokens m) (filled : tokens ≠ [])
    (inner : ∀ t ∈ tokens.dropLast, t.token.isNewline = false) (closed : r = [] ∨ Closed tokens)
    (some_indent : indent ≠ "") (blank : Margin indent) (same : c'.delimiters = c.delimiters)
    (whole : c'.rest = indent.toList ++ (rawText tokens ++ r)) :
    ∃ copies m', Reads c' copies m' ∧ Indented indent (tokens.map (·.content)) (copies.map (·.content)) ∧
      m'.rest = r ∧ m'.delimiters = m.delimiters := by
  have reads_all := reads
  cases reads with
  | nil => exact absurd rfl filled
  | @cons _ _ l tokens left read later =>
    have written : rawText (c.locate l :: tokens) ++ r = l.raw ++ (rawText tokens ++ r) := by simp [Cursor.locate]
    have here := first_again left read later closed c.position
    cases ends : Lexeme.endsText c.delimiters.opening.toList (l.raw ++ (rawText tokens ++ r)) with
    | false =>
      rw [written] at whole
      exact indented_text left read later closed blank same whole ends
    | true =>
      by_cases meets : indent.toList.getLast? = some '\r' ∧ (l.raw ++ (rawText tokens ++ r)).head? = some '\n'
      · rw [written] at whole
        exact indented_meeting here later inner blank same whole meets.1 meets.2
      · have ends' : Lexeme.endsText c'.delimiters.opening.toList (rawText (c.locate l :: tokens) ++ r) = true := by
          rw [same, written, ends]
        refine indented_apart reads_all (lexeme_local here ends).1 closed some_indent blank same whole ends' ?_
        intro carriage feed
        rw [written] at feed
        exact meets ⟨carriage, feed⟩

end Cursor.Reads

theorem Line.Complete.inner {line : Line} (complete : line.Complete) :
    ∀ t ∈ line.tokens.dropLast, t.token.isNewline = false := by
  obtain ⟨front, last, tokens, _, inside⟩ := complete
  rw [tokens, List.dropLast_concat]
  exact inside

theorem Line.Complete.closed {line : Line} (complete : line.Complete) : Closed line.tokens := by
  obtain ⟨front, last, tokens, break_, _⟩ := complete
  intro t member content text
  obtain rfl : last = t := by simpa [tokens] using member
  simp [text, Token.isNewline] at break_

/-- A line is complete when a line break stands at its end and nowhere else. -/
theorem Line.complete_iff {line : Line} :
    line.Complete ↔ ∃ n, line.contents.map (·.1.isNewline) = List.replicate n false ++ [true] := by
  have mapped : line.contents.map (·.1.isNewline) = line.tokens.map (·.token.isNewline) := by
    simp [contents, LocatedToken.content, Function.comp_def]
  rw [mapped]
  constructor
  · rintro ⟨front, last, tokens, break_, inside⟩
    refine ⟨front.length, ?_⟩
    have none : front.map (·.token.isNewline) = List.replicate front.length false :=
      List.map_eq_replicate_iff.mpr inside
    rw [tokens, List.map_append, none, List.map_singleton, break_]
  · rintro ⟨n, pattern⟩
    obtain ⟨front, back, tokens, before, behind⟩ := List.map_eq_append_iff.mp pattern
    obtain ⟨last, rfl, break_⟩ := List.map_eq_singleton_iff.mp behind
    refine ⟨front, last, tokens, break_, fun t member => ?_⟩
    have listed : t.token.isNewline ∈ List.replicate n false := before ▸ List.mem_map_of_mem member
    exact List.eq_of_mem_replicate listed

namespace Indented

variable {indent : String} {a b : List (Token × String)}

/-- An indentation brings no line break. -/
theorem breaks (indented : Indented indent a b) :
    ∃ n, b.map (·.1.isNewline) = List.replicate n false ++ a.map (·.1.isNewline) := by
  cases indented with
  | joined => exact ⟨0, rfl⟩
  | apart => exact ⟨1, rfl⟩
  | @feed before _ =>
    by_cases empty : before = ""
    · exact ⟨0, by simp [textOf, empty, Token.isNewline]⟩
    · exact ⟨1, by simp [textOf, empty, Token.isNewline]⟩

theorem ne_nil (indented : Indented indent a b) : b ≠ [] := by
  cases indented <;> simp

end Indented

/-- Indented lines in a row are lines in a row. -/
theorem Rows.indented {indent : String} {lines lines' : List Line} (rows : Rows lines)
    (each : List.Forall₂ (fun line line' => Indented indent line.contents line'.contents) lines lines') : Rows lines' := by
  induction rows generalizing lines' with
  | nil =>
    cases each
    exact .nil
  | @unfinished line filled within =>
    cases each with
    | @cons _ line' _ _ here none =>
      cases none
      obtain ⟨n, breaks⟩ := here.breaks
      refine .unfinished (fun empty => here.ne_nil (by rw [Line.contents, empty]; rfl)) fun t member => ?_
      have listed : t.token.isNewline ∈ line'.contents.map (·.1.isNewline) := by
        rw [Line.contents, List.map_map]
        exact List.mem_map_of_mem member
      rw [breaks, List.mem_append] at listed
      rcases listed with before | inside
      · exact List.eq_of_mem_replicate before
      · obtain ⟨entry, among, same⟩ := List.mem_map.mp inside
        obtain ⟨u, there, rfl⟩ := List.mem_map.mp among
        rw [← same]
        exact within u there
  | @cons line rest complete others ih =>
    cases each with
    | cons here later =>
      obtain ⟨n, breaks⟩ := here.breaks
      obtain ⟨k, pattern⟩ := Line.complete_iff.mp complete
      refine .cons (Line.complete_iff.mpr ⟨n + k, ?_⟩) (ih later)
      rw [breaks, pattern, ← List.append_assoc, List.replicate_append_replicate]

/-- Lines in a row are read again with an indentation before each of them. -/
theorem Cursor.Reads.indented_rows {indent : String} {lines : List Line} (rows : Rows lines) {c c' d : Cursor}
    (reads : Cursor.Reads c (lines.flatMap (·.tokens)) d) (some_indent : indent ≠ "") (blank : Margin indent)
    (same : c'.delimiters = c.delimiters)
    (whole : c'.rest = lines.flatMap fun line => indent.toList ++ rawText line.tokens) :
    ∃ (lines' : List Line) (d' : Cursor), Cursor.Reads c' (lines'.flatMap (·.tokens)) d' ∧ d'.rest = [] ∧
      List.Forall₂ (fun line line' => Indented indent line.contents line'.contents) lines lines' := by
  induction rows generalizing c c' with
  | nil => exact ⟨[], c', .nil, whole, .nil⟩
  | @unfinished line filled within =>
    rw [List.flatMap_singleton] at reads whole
    rw [← List.append_nil (rawText line.tokens)] at whole
    obtain ⟨copies, d', again, indented, done, _⟩ := reads.indented filled
      (fun t member => within t (List.mem_of_mem_dropLast member)) (.inl rfl) some_indent blank same whole
    refine ⟨[⟨copies⟩], d', ?_, done, .cons indented .nil⟩
    rw [List.flatMap_singleton]
    exact again
  | @cons line rest complete others ih =>
    rw [List.flatMap_cons] at reads whole
    obtain ⟨m, here, later⟩ := reads.split
    rw [List.append_assoc] at whole
    obtain ⟨copies, m', again, indented, left, active⟩ := here.indented complete.ne_nil complete.inner
      (.inr complete.closed) some_indent blank same whole
    obtain ⟨lines', d', behind, done, each⟩ := ih later active left
    refine ⟨⟨copies⟩ :: lines', d', ?_, done, .cons indented each⟩
    rw [List.flatMap_cons]
    exact again.append behind

/-- A source without a fault has, indented, its lines indented. -/
theorem layout_indentLines {source indent : String} (clean : (layout source).failure = none) (some_indent : indent ≠ "")
    (blank : Margin indent) :
    (layout (indentLines source indent)).failure = none ∧
      List.Forall₂ (fun line line' => Indented indent line.contents line'.contents) (layout source).lines
        (layout (indentLines source indent)).lines := by
  have reads := tokenize_reads source
  have rows := rows_of_clean clean
  rw [← tokens_of_lines clean] at reads
  let start : Cursor := { rest := (indentLines source indent).toList }
  have rest : start.rest = _ := toList_indentLines clean indent
  have active : start.delimiters = .standard := rfl
  obtain ⟨lines', d', again, done, each⟩ := reads.indented_rows rows some_indent blank active rest
  have whole := Fragment.tokenize_of_reads again done
  have failure : (layout (indentLines source indent)).failure = none := by
    rw [layout, whole]
  refine ⟨failure, ?_⟩
  rw [lines_of_clean failure, whole, (rows.indented each).wholeLines_eq]
  exact each

/-! ## What indented lines say -/

theorem Line.standalone_ofContents (a : List (Token × String)) :
    (ofContents a).standalone = (!(a.map (role ·.1)).contains .content && (a.map (role ·.1)).count .tag == 1) := by
  simp [standalone, ofContents, Function.comp_def]

/-- A blank in front does not bear on a line standing alone. -/
theorem Line.standalone_blank {content raw : String} (blank : content.toList.all isBlank = true)
    (a : List (Token × String)) : (ofContents ((.text content, raw) :: a)).standalone = (ofContents a).standalone := by
  have first : role (.text content) = .blank := by simp [role, Token.isBlank, blank]
  have no_content : (Role.content == Role.blank) = false := rfl
  rw [standalone_ofContents, standalone_ofContents, List.map_cons, first, List.contains_cons, no_content,
    Bool.false_or, List.count_cons_of_ne (by decide)]

theorem Line.indent_text {content raw : String} {a : List (Token × String)}
    (alone : (ofContents ((.text content, raw) :: a)).standalone = true) :
    (ofContents ((.text content, raw) :: a)).indent = content := by
  rw [indent, alone]
  rfl

theorem Line.indent_other {first : Token × String} (other : ∀ content, first.1 ≠ .text content)
    (a : List (Token × String)) : (ofContents (first :: a)).indent = "" := by
  obtain ⟨token, raw⟩ := first
  rw [indent]
  cases token with
  | text content => exact absurd rfl (other content)
  | _ => cases (ofContents _).standalone <;> rfl

theorem Outline.add_add_text (o : Outline) (x y : String) : (o.add (.text x)).add (.text y) = o.add (.text (x ++ y)) := by
  obtain ⟨stmts, opened⟩ := o
  cases stmts with
  | nil => rfl
  | cons s rest => cases s <;> simp [add, Statement.push, String.append_assoc]

namespace Indented

variable {indent : String} {a b : List (Token × String)}

theorem standalone (indented : Indented indent a b) (blank : Margin indent) :
    (Line.ofContents b).standalone = (Line.ofContents a).standalone := by
  have all : indent.toList.all isBlank = true := by
    rw [List.all_eq_true]
    exact fun c member => (blank c member).1
  cases indented with
  | @joined content raw rest =>
    have same : Line.role (.text (indent ++ content)) = Line.role (.text content) := by
      simp only [Line.role, Token.isBlank, String.toList_append, List.all_append, all, Bool.true_and]
      rfl
    rw [Line.standalone_ofContents, Line.standalone_ofContents, List.map_cons, List.map_cons, same]
  | apart => exact Line.standalone_blank all _
  | @feed before ends =>
    by_cases empty : before = ""
    · simp [textOf, empty, Line.standalone_ofContents, Line.role]
    · have all_before : before.toList.all isBlank = true := by
        rw [ends, String.toList_append, List.all_append, Bool.and_eq_true] at all
        exact all.1
      rw [textOf, if_neg empty, List.singleton_append, Line.standalone_blank all_before]
      simp [Line.standalone_ofContents, Line.role]

theorem tags (indented : Indented indent a b) : b.filter (·.1.isTag) = a.filter (·.1.isTag) := by
  cases indented with
  | joined => simp [Token.isTag]
  | apart => simp [Token.isTag]
  | @feed before _ => by_cases empty : before = "" <;> simp [textOf, empty, Token.isTag]

theorem written (indented : Indented indent a b) :
    b.flatMap (·.2.toList) = indent.toList ++ a.flatMap (·.2.toList) := by
  cases indented with
  | joined => simp
  | apart => simp
  | @feed before ends =>
    by_cases empty : before = ""
    · simp [textOf, ends, empty]
    · simp [textOf, ends, empty]

theorem margin (indented : Indented indent a b) (blank : Margin indent) (alone : (Line.ofContents a).standalone = true) :
    (Line.ofContents b).indent = indent ++ (Line.ofContents a).indent := by
  have also := (indented.standalone blank).trans alone
  cases indented with
  | joined => rw [Line.indent_text also, Line.indent_text alone]
  | apart other => rw [Line.indent_text also, Line.indent_other other, String.append_empty]
  | feed => simp [Line.standalone_ofContents, Line.role] at alone

/-- A line says with an indentation what it says when it is indented. -/
theorem readLine_eq (indented : Indented indent a b) (some_indent : indent ≠ "") (blank : Margin indent) (o : Outline) :
    o.readLine "" (.ofContents b) = o.readLine indent (.ofContents a) := by
  have same := indented.standalone blank
  have step : Outline.readToken "" (.ofContents b) = Outline.readToken indent (.ofContents a) := by
    refine Outline.readToken_congr same fun alone => ?_
    rw [String.empty_append, indented.margin blank (same.symm.trans alone)]
  rw [Outline.readLine, Outline.readLine, step]
  cases alone : (Line.ofContents a).standalone with
  | true =>
    have also := same.trans alone
    have tags : (Line.ofContents b).emitted = (Line.ofContents a).emitted := by
      rw [Line.emitted_of_standalone also, Line.emitted_of_standalone alone, Line.ofContents, Line.ofContents,
        List.filter_map, List.filter_map]
      exact congrArg _ indented.tags
    rw [tags]
    simp [also]
  | false =>
    have also := same.trans alone
    have some_text : indent.isEmpty = false := by simpa using some_indent
    have no_text : ("" : String).isEmpty = true := rfl
    rw [Line.emitted_of_not_standalone also, Line.emitted_of_not_standalone alone, also, some_text, no_text, Bool.or_true,
      if_pos rfl, Bool.or_false, if_neg Bool.false_ne_true]
    cases indented with
    | @joined content raw rest =>
      have first := o.add_add_text indent content
      exact congrArg (fun o => (Line.ofContents rest).tokens.foldlM _ o) first.symm
    | apart => rfl
    | @feed before ends =>
      have whole : indent ++ "\n" = before ++ "\r\n" := by
        rw [ends, String.append_assoc]
        rfl
      have feed := congrArg (Except.ok (ε := Fault)) (o.add_add_text indent "\n")
      rw [whole] at feed
      refine Eq.trans ?_ feed.symm
      by_cases empty : before = ""
      · rw [textOf, if_pos empty, empty]
        rfl
      · rw [textOf, if_neg empty, ← Outline.add_add_text]
        rfl

end Indented

/-- Steps over lists that go together come to the same. -/
theorem foldlM_congr {α β ε σ : Type} {R : α → β → Prop} {f : σ → α → Except ε σ} {g : σ → β → Except ε σ}
    (one : ∀ a b, R a b → ∀ s, f s a = g s b) {as : List α} {bs : List β} (each : List.Forall₂ R as bs) (s : σ) :
    as.foldlM f s = bs.foldlM g s := by
  induction each generalizing s with
  | nil => rfl
  | @cons a b _ _ here _ ih =>
    rw [List.foldlM_cons, List.foldlM_cons, one a b here s]
    congr 1
    funext next
    exact ih next

theorem readLines_indented {indent : String} {lines lines' : List Line} (some_indent : indent ≠ "") (blank : Margin indent)
    (each : List.Forall₂ (fun line line' => Indented indent line.contents line'.contents) lines lines') :
    unplacedResult Statement.unplacedAll (readLines "" lines') =
      unplacedResult Statement.unplacedAll (readLines indent lines) := by
  have one : ∀ line line' : Line, Indented indent line.contents line'.contents → ∀ o : Outline,
      o.readLine indent line.unplaced = o.readLine "" line'.unplaced := by
    intro line line' indented o
    rw [line.unplaced_eq, line'.unplaced_eq, indented.readLine_eq some_indent blank]
  have folded := foldlM_congr one each ({} : Outline)
  rw [readLines_unplaced, readLines_unplaced, readLines, readLines, List.foldlM_map, List.foldlM_map, folded]

theorem indentLines_empty (source : String) : indentLines source "" = source := by
  have nothing : ∀ (lines : List Line) (cs : List Char),
      lines.foldr (fun line cs => insertAt line.start "".toList cs) cs = cs := by
    intro lines cs
    induction lines with
    | nil => rfl
    | cons line rest ih =>
      rw [List.foldr_cons, ih, insertAt, String.toList_empty, List.append_nil, takeBytes_append_dropBytes]
  rw [indentLines, nothing, String.ofList_toList]

/-- Without a fault a source says with an indentation what it says when it is indented. -/
theorem ofSource_indentLines {source indent : String} (clean : (layout source).failure = none) (blank : Margin indent) :
    unplacedResult Statement.unplacedAll (Statement.ofSource (indentLines source indent) "") =
      unplacedResult Statement.unplacedAll (Statement.ofSource source indent) := by
  by_cases some_indent : indent = ""
  · rw [some_indent, indentLines_empty]
  · obtain ⟨clean', each⟩ := layout_indentLines clean some_indent blank
    rw [ofSource_eq_readLines clean, ofSource_eq_readLines clean', readLines_indented some_indent blank each]

/-- How a line goes over into a line of the indented source. -/
structure Line.IndentsTo (indent : String) (line line' : Line) : Prop where
  written : rawText line'.tokens = indent.toList ++ rawText line.tokens
  standalone : line'.standalone = line.standalone
  /-- No tag is indented inside. -/
  tags : (line'.tokens.filter (·.token.isTag)).map (·.content) = (line.tokens.filter (·.token.isTag)).map (·.content)
  /-- What stands alone contributes no indentation. -/
  emitted : line.standalone = true → line'.emitted.map (·.content) = line.emitted.map (·.content)
  /-- What stands alone is indented by both indentations, the outer one first. -/
  margin : line.standalone = true → line'.indent = indent ++ line.indent

theorem Line.IndentsTo.refl (line : Line) : line.IndentsTo "" line :=
  ⟨rfl, rfl, rfl, fun _ => rfl, fun _ => String.empty_append.symm⟩

theorem Indented.indentsTo {indent : String} {line line' : Line}
    (indented : Indented indent line.contents line'.contents) (blank : Margin indent) : line.IndentsTo indent line' := by
  have texts : ∀ line : Line, rawText line.tokens = line.contents.flatMap (·.2.toList) := by
    intro line
    rw [rawText, Line.contents, List.flatMap_map]
    rfl
  have tags_of : ∀ line : Line, (line.tokens.filter (·.token.isTag)).map (·.content) =
      line.contents.filter (·.1.isTag) := by
    intro line
    rw [Line.contents, List.filter_map]
    rfl
  have same : line'.standalone = line.standalone := by
    rw [← line.standalone_unplaced, ← line'.standalone_unplaced, line.unplaced_eq, line'.unplaced_eq,
      indented.standalone blank]
  have tags : (line'.tokens.filter (·.token.isTag)).map (·.content) =
      (line.tokens.filter (·.token.isTag)).map (·.content) := by
    rw [tags_of, tags_of, indented.tags]
  refine ⟨?_, same, tags, fun alone => ?_, fun alone => ?_⟩
  · rw [texts, texts, indented.written]
  · rw [Line.emitted_of_standalone alone, Line.emitted_of_standalone (same.trans alone), tags]
  · rw [← Line.standalone_unplaced, line.unplaced_eq] at alone
    rw [← line.indent_unplaced, ← line'.indent_unplaced, line.unplaced_eq, line'.unplaced_eq,
      indented.margin blank alone]

/-- The lines of an indented source are those of the source, indented. -/
theorem lines_indentLines {source indent : String} (clean : (layout source).failure = none) (blank : Margin indent) :
    (layout (indentLines source indent)).failure = none ∧
      List.Forall₂ (Line.IndentsTo indent) (layout source).lines (layout (indentLines source indent)).lines := by
  by_cases some_indent : indent = ""
  · rw [some_indent, indentLines_empty]
    exact ⟨clean, List.forall₂_same.mpr fun line _ => .refl line⟩
  · obtain ⟨clean', each⟩ := layout_indentLines clean some_indent blank
    exact ⟨clean', each.imp fun _ _ indented => indented.indentsTo blank⟩

/-- Indentations accumulate, the outer one first. -/
theorem indentLines_indentLines {source indent : String} (clean : (layout source).failure = none)
    (blank : Margin indent) (outer : String) :
    indentLines (indentLines source indent) outer = indentLines source (outer ++ indent) := by
  obtain ⟨clean', each⟩ := lines_indentLines clean blank
  rw [← String.toList_inj, toList_indentLines clean', toList_indentLines clean]
  generalize (layout source).lines = lines at each
  generalize (layout (indentLines source indent)).lines = lines' at each
  induction each with
  | nil => rfl
  | cons here _ ih =>
    rw [List.flatMap_cons, List.flatMap_cons, ih, here.written]
    simp

/-- Whether a source is accepted does not depend on its indentation. -/
theorem accepted_indented {source other : String} {stmts : List Statement}
    (accepted : Statement.ofSource source other = .ok stmts) (indent : String) :
    ∃ stmts', Statement.ofSource source indent = .ok stmts' := by
  obtain ⟨clean, read⟩ := ofSource_eq_ok.mp accepted
  have refers := refersWell_of_readLines read
  have same := (map_readLines indent refers).trans (map_readLines other refers).symm
  rw [read] at same
  rw [ofSource_eq_readLines clean]
  cases result : readLines indent (layout source).lines with
  | ok stmts' => exact ⟨stmts', rfl⟩
  | error fault =>
    rw [result] at same
    cases same

/-- Reading an accepted source with an indentation is reading the source with the indentation at the first byte of
each of its lines. These stand alone, or not, as before, and those that do contribute no indentation; inside tags
nothing is indented; and indentations accumulate, the outer one first. -/
theorem indentation_is_textual {source indent other : String} {stmts : List Statement}
    (accepted : Statement.ofSource source other = .ok stmts) (blank : Margin indent) :
    (∃ direct textual, Statement.ofSource source indent = .ok direct ∧
      Statement.ofSource (indentLines source indent) "" = .ok textual ∧
      Statement.unplacedAll textual = Statement.unplacedAll direct) ∧
    List.Forall₂ (Line.IndentsTo indent) (layout source).lines (layout (indentLines source indent)).lines ∧
    ∀ outer, indentLines (indentLines source indent) outer = indentLines source (outer ++ indent) := by
  obtain ⟨clean, _⟩ := ofSource_eq_ok.mp accepted
  refine ⟨?_, (lines_indentLines clean blank).2, indentLines_indentLines clean blank⟩
  obtain ⟨direct, parsed⟩ := accepted_indented accepted indent
  obtain ⟨textual, result, same⟩ := ok_of_unplacedResult (ofSource_indentLines clean blank) parsed
  exact ⟨direct, textual, parsed, result, same⟩

/-- A blank line, an inclusion that stands alone, and a comment over two lines behind a text. -/
def noteSource : String := "\n  \x7b\x7b>p\x7d\x7d\na\x7b\x7b!\n\x7d\x7d"

def noteStatements : List Statement := [.text "\n", .inclusion "p" "  " ⟨2, 3⟩, .text "a"]

/-- The carriage return becomes a part of the line break of the blank line. -/
def noteIndented : String := " \r\n \r  \x7b\x7b>p\x7d\x7d\n \ra\x7b\x7b!\n\x7d\x7d"

theorem note_indented :
    Statement.ofSource noteSource "" = .ok noteStatements ∧ Margin " \r" ∧
      indentLines noteSource " \r" = noteIndented ∧
      (∃ direct textual, Statement.ofSource noteSource " \r" = .ok direct ∧
        Statement.ofSource (indentLines noteSource " \r") "" = .ok textual ∧
        Statement.unplacedAll textual = Statement.unplacedAll direct) ∧
      List.Forall₂ (Line.IndentsTo " \r") (layout noteSource).lines (layout (indentLines noteSource " \r")).lines ∧
      ∀ outer, indentLines (indentLines noteSource " \r") outer = indentLines noteSource (outer ++ " \r") := by
  have accepted : Statement.ofSource noteSource "" = .ok noteStatements := by cbv
  have blank : Margin " \r" := by decide
  have moved : indentLines noteSource " \r" = noteIndented := by cbv
  exact ⟨accepted, blank, moved, indentation_is_textual accepted blank⟩

end Mustache

import Mustache.Proofs.Displacement

/-!
# Carriage returns at line feeds

A text in which every line feed has a carriage return before it (`crlf`) is read as before: a carriage return is blank
and in no marker, so searches, trimmed names and changes of the delimiters meet the same, and the two characters are one
line break (`lexeme_crlf`). In a source without carriage returns the tokens are those of the source, at other offsets,
with the converted texts (`Cursor.run_crlf`).
-/

namespace Mustache
open Text

/-! ## Texts -/

namespace Text

def crlf (cs : List Char) : List Char := cs.flatMap fun c => if c = '\n' then ['\r', '\n'] else [c]

/-- A pattern in which no line ends. -/
def OneLine (pattern : List Char) : Prop := '\r' ∉ pattern ∧ '\n' ∉ pattern

section

variable {cs pattern : List Char} {c : Char}

@[simp] theorem crlf_nil : crlf [] = [] := rfl

theorem crlf_feed (cs : List Char) : crlf ('\n' :: cs) = '\r' :: '\n' :: crlf cs := rfl

theorem crlf_cons (inLine : c ≠ '\n') (cs : List Char) : crlf (c :: cs) = c :: crlf cs := by
  rw [crlf, List.flatMap_cons, if_neg inLine]
  rfl

theorem crlf_append (a b : List Char) : crlf (a ++ b) = crlf a ++ crlf b := List.flatMap_append

theorem crlf_of_notMem (inLine : '\n' ∉ cs) : crlf cs = cs := by
  induction cs with
  | nil => rfl
  | cons c r ih =>
    rw [List.mem_cons, not_or] at inLine
    rw [crlf_cons (Ne.symm inLine.1), ih inLine.2]

/-- An induction on a text, line feeds apart. -/
theorem feed_cases {motive : List Char → Prop} (empty : motive []) (feed : ∀ r, motive r → motive ('\n' :: r))
    (other : ∀ c r, c ≠ '\n' → motive r → motive (c :: r)) (cs : List Char) : motive cs := by
  induction cs with
  | nil => exact empty
  | cons c r ih =>
    by_cases ends : c = '\n'
    · subst ends
      exact feed r ih
    · exact other c r ends ih

theorem feed_mem_crlf_iff : '\n' ∈ crlf cs ↔ '\n' ∈ cs := by
  induction cs using feed_cases with
  | empty => exact Iff.rfl
  | feed r _ => simp [crlf_feed]
  | other c r inLine ih => simp [crlf_cons inLine, ih]

theorem crlf_eq_nil_iff : crlf cs = [] ↔ cs = [] := by
  induction cs using feed_cases with
  | empty => exact Iff.rfl
  | feed r _ => simp [crlf_feed]
  | other c r inLine _ => simp [crlf_cons inLine]

/-- A text within a line is met where it was, and nowhere else. -/
theorem crlf_eq_iff (inLine : '\n' ∉ pattern) : crlf cs = pattern ↔ cs = pattern := by
  constructor
  · rintro rfl
    rw [feed_mem_crlf_iff] at inLine
    exact (crlf_of_notMem inLine).symm
  · rintro rfl
    exact crlf_of_notMem inLine

theorem OneLine.tail (within : OneLine (c :: pattern)) : OneLine pattern :=
  ⟨fun member => within.1 (List.mem_cons_of_mem _ member), fun member => within.2 (List.mem_cons_of_mem _ member)⟩

theorem OneLine.head (within : OneLine (c :: pattern)) : c ≠ '\r' ∧ c ≠ '\n' := by
  constructor
  · rintro rfl
    exact within.1 List.mem_cons_self
  · rintro rfl
    exact within.2 List.mem_cons_self

theorem isPrefixOf?_crlf (within : OneLine pattern) (cs : List Char) :
    pattern.isPrefixOf? (crlf cs) = (pattern.isPrefixOf? cs).map crlf := by
  induction pattern generalizing cs with
  | nil => rfl
  | cons p ps ih =>
    obtain ⟨no_return, no_feed⟩ := within.head
    cases cs with
    | nil => rfl
    | cons c r =>
      by_cases ends : c = '\n'
      · subst ends
        rw [crlf_feed, isPrefixOf?_cons, if_neg no_return, isPrefixOf?_cons, if_neg no_feed]
        rfl
      · rw [crlf_cons ends, isPrefixOf?_cons, isPrefixOf?_cons, ih within.tail]
        split <;> rfl

theorem isPrefixOf_crlf (within : OneLine pattern) (cs : List Char) :
    pattern.isPrefixOf (crlf cs) = pattern.isPrefixOf cs := by
  rw [← isPrefixOf?_isSome, ← isPrefixOf?_isSome, isPrefixOf?_crlf within, Option.isSome_map]

theorem breakOn_crlf (within : OneLine pattern) (filled : pattern ≠ []) (cs : List Char) :
    breakOn pattern (crlf cs) = (breakOn pattern cs).map fun found => (crlf found.1, crlf found.2) := by
  obtain ⟨p, ps, rfl⟩ := List.exists_cons_of_ne_nil filled
  obtain ⟨no_return, no_feed⟩ := within.head
  induction cs using feed_cases with
  | empty => rfl
  | feed r ih =>
    have not_here : (p :: ps).isPrefixOf? ('\n' :: crlf r) = none := by rw [isPrefixOf?_cons, if_neg no_feed]
    have nor_here : (p :: ps).isPrefixOf? ('\n' :: r) = none := by rw [isPrefixOf?_cons, if_neg no_feed]
    have nor_before : (p :: ps).isPrefixOf? ('\r' :: '\n' :: crlf r) = none := by rw [isPrefixOf?_cons, if_neg no_return]
    rw [crlf_feed, breakOn, nor_before, breakOn, not_here, breakOn, nor_here, ih]
    cases breakOn (p :: ps) r <;> rfl
  | other c r inLine ih =>
    have here := isPrefixOf?_crlf within (c :: r)
    rw [crlf_cons inLine] at here ⊢
    rw [breakOn, here, breakOn]
    cases (p :: ps).isPrefixOf? (c :: r) with
    | some behind => rfl
    | none =>
      simp only [Option.map_none, ih, Option.map_map]
      cases breakOn (p :: ps) r with
      | none => rfl
      | some found => simp [crlf_cons inLine]

theorem isBlank_return : isBlank '\r' = true := by decide

theorem isBlank_feed : isBlank '\n' = true := by decide

theorem takeWhile_crlf (cs : List Char) : (crlf cs).takeWhile isBlank = crlf (cs.takeWhile isBlank) := by
  induction cs using feed_cases with
  | empty => rfl
  | feed r ih => simp [crlf_feed, isBlank_return, isBlank_feed, ih]
  | other c r inLine ih => by_cases blank : isBlank c = true <;> simp [crlf_cons inLine, blank, ih]

theorem dropWhile_crlf (cs : List Char) : (crlf cs).dropWhile isBlank = crlf (cs.dropWhile isBlank) := by
  induction cs using feed_cases with
  | empty => rfl
  | feed r ih => simp [crlf_feed, isBlank_return, isBlank_feed, ih]
  | other c r inLine ih => by_cases blank : isBlank c = true <;> simp [crlf_cons inLine, blank, ih]

theorem trimEnd_append_of_blank {a b : List Char} (blank : ∀ c ∈ b, isBlank c = true) : trimEnd (a ++ b) = trimEnd a := by
  rw [trimEnd, trimEnd, List.reverse_append, List.dropWhile_append_of_pos]
  exact fun c member => blank c (List.mem_reverse.mp member)

theorem trimEnd_append_of_significant (significant : isBlank c = false) (cs : List Char) :
    trimEnd (cs ++ [c]) = cs ++ [c] := by
  simp [trimEnd, significant]

theorem trimEnd_crlf (cs : List Char) : trimEnd (crlf cs) = crlf (trimEnd cs) := by
  -- A blank at the end goes, and only then one before it, so the induction is from the end.
  induction cs using List.reverseRecOn with
  | nil => rfl
  | append_singleton r c ih =>
    rw [crlf_append]
    by_cases blank : isBlank c = true
    · have blanks : ∀ x ∈ crlf [c], isBlank x = true := by
        by_cases ends : c = '\n'
        · subst ends
          simp [crlf_feed, isBlank_return, isBlank_feed]
        · simpa [crlf_cons ends] using blank
      rw [trimEnd_append_of_blank blanks, trimEnd_append_of_blank (by simpa using blank), ih]
    · have significant : isBlank c = false := by simpa using blank
      have inLine : c ≠ '\n' := by
        rintro rfl
        exact blank isBlank_feed
      have same : crlf [c] = [c] := crlf_cons inLine []
      rw [same, trimEnd_append_of_significant significant, trimEnd_append_of_significant significant, crlf_append, same]

theorem trim_crlf (cs : List Char) : trim (crlf cs) = crlf (trim cs) := by
  rw [trim, trimStart, dropWhile_crlf, trimEnd_crlf]
  rfl

theorem any_crlf (cs : List Char) : (crlf cs).any isBlank = cs.any isBlank := by
  induction cs using feed_cases with
  | empty => rfl
  | feed r _ => simp [crlf_feed, isBlank_return, isBlank_feed]
  | other c r inLine ih => simp [crlf_cons inLine, ih]

theorem all_crlf (cs : List Char) : (crlf cs).all isBlank = cs.all isBlank := by
  induction cs using feed_cases with
  | empty => rfl
  | feed r ih => simp [crlf_feed, isBlank_return, isBlank_feed, ih]
  | other c r inLine ih => simp [crlf_cons inLine, ih]

/-- Texts are split at blanks into the same words: what is more is empty. -/
theorem split_crlf (cs : List Char) : ∃ first rest rest', split isBlank cs = first :: rest ∧
    split isBlank (crlf cs) = first :: rest' ∧ rest'.filter (!·.isEmpty) = rest.filter (!·.isEmpty) := by
  induction cs using feed_cases with
  | empty => exact ⟨[], [], [], rfl, rfl, rfl⟩
  | feed r ih =>
    obtain ⟨first, rest, rest', here, there, same⟩ := ih
    refine ⟨[], first :: rest, [] :: first :: rest', ?_, ?_, ?_⟩
    · simp [split, isBlank_feed, here]
    · simp [crlf_feed, split, isBlank_return, isBlank_feed, there]
    · simp [List.filter_cons, same]
  | other c r inLine ih =>
    obtain ⟨first, rest, rest', here, there, same⟩ := ih
    by_cases blank : isBlank c = true
    · refine ⟨[], first :: rest, first :: rest', ?_, ?_, ?_⟩
      · simp [split, blank, here]
      · simp [crlf_cons inLine, split, blank, there]
      · simp [List.filter_cons, same]
    · refine ⟨c :: first, rest, rest', ?_, ?_, same⟩
      · simp [split, blank, here]
      · simp [crlf_cons inLine, split, blank, there]

theorem words_crlf (cs : List Char) : words (crlf cs) = words cs := by
  obtain ⟨first, rest, rest', here, there, same⟩ := split_crlf cs
  rw [words, words, here, there, List.filter_cons, List.filter_cons, same]

end

/-- A text with a carriage return at every line feed. -/
def crlfText (text : String) : String := String.ofList (crlf text.toList)

section

variable {text : String}

@[simp] theorem toList_crlfText (text : String) : (crlfText text).toList = crlf text.toList := String.toList_ofList

theorem crlfText_ofList (cs : List Char) : crlfText (String.ofList cs) = String.ofList (crlf cs) := by
  rw [crlfText, String.toList_ofList]

theorem crlfText_append (a b : String) : crlfText (a ++ b) = crlfText a ++ crlfText b := by
  rw [crlfText, String.toList_append, crlf_append, String.ofList_append]
  rfl

theorem crlfText_of_notMem (inLine : '\n' ∉ text.toList) : crlfText text = text := by
  rw [crlfText, crlf_of_notMem inLine, String.ofList_toList]

theorem crlfText_empty : crlfText "" = "" := crlfText_of_notMem (by decide)

theorem isEmpty_crlfText (text : String) : (crlfText text).isEmpty = text.isEmpty := by
  rw [Bool.eq_iff_iff, String.isEmpty_iff, String.isEmpty_iff, ← String.toList_eq_nil_iff, toList_crlfText, crlf_eq_nil_iff,
    String.toList_eq_nil_iff]

end

end Text

theorem Position.after_crlf (p : Position) (cs : List Char) : p.after (crlf cs) = p.after cs := by
  induction cs using feed_cases generalizing p with
  | empty => rfl
  | feed r ih => exact ih _
  | other c r inLine ih =>
    rw [crlf_cons inLine]
    exact ih _

theorem oneLine_of_validMarker {marker : String} (valid : ValidMarker marker) : OneLine marker.toList := by
  constructor
  · intro member
    exact absurd (valid.2 _ member).1 (by simp [isBlank_return])
  · intro member
    exact absurd (valid.2 _ member).1 (by simp [isBlank_feed])

theorem Delimiters.read?_crlf (markers : List Char) : Delimiters.read? (crlf markers) = Delimiters.read? markers := by
  rw [read?, words_crlf]
  rfl

/-! ## Tokens -/

/-- Only texts, line breaks and comments hold line feeds. -/
def Token.crlf : Token → Token
  | .text content => .text (crlfText content)
  | .newline _ => .newline .crlf
  | .delimiters previous next => .delimiters previous next
  | .tag name kind => .tag (if kind = .comment then crlfText name else name) kind

def Change.crlf : Change where
  text := crlfText
  place := id
  text_append := crlfText_append
  isEmpty_text := isEmpty_crlfText

/-- A fault with the converted text that it shows. -/
def SyntaxError.crlf (e : SyntaxError) : SyntaxError := e.change .crlf

namespace Lexeme

def crlf (l : Lexeme) : Lexeme := ⟨l.token.crlf, Text.crlf l.raw, Text.crlf l.rest⟩

section

variable {d : Delimiters} {p : Position} {opening body lead inner name cs : List Char} {kind : TagKind}

theorem lineBreak?_crlf (no_return : '\r' ∉ cs) : lineBreak? (Text.crlf cs) = (lineBreak? cs).map crlf := by
  cases cs with
  | nil => rfl
  | cons c r =>
    by_cases ends : c = '\n'
    · subst ends
      rfl
    · have other : c ≠ '\r' := by
        rintro rfl
        exact no_return List.mem_cons_self
      have none_before (rest : List Char) : lineBreak? (c :: rest) = none := by
        unfold lineBreak?
        split <;> simp_all
      rw [crlf_cons ends, none_before, none_before]
      rfl

theorem endsText_crlf (within : OneLine opening) (no_return : '\r' ∉ cs) :
    endsText opening (Text.crlf cs) = endsText opening cs := by
  rw [endsText, endsText, lineBreak?_crlf no_return, Option.isSome_map, isPrefixOf_crlf within]

theorem spanText_crlf (within : OneLine opening) (no_return : '\r' ∉ cs) :
    spanText opening (Text.crlf cs) = (Text.crlf (spanText opening cs).1, Text.crlf (spanText opening cs).2) := by
  induction cs using feed_cases with
  | empty => rfl
  | feed r _ => rfl
  | other c r inLine ih =>
    have stops := endsText_crlf within no_return
    have later := ih fun member => no_return (List.mem_cons_of_mem _ member)
    rw [crlf_cons inLine] at stops ⊢
    rw [spanText, spanText, stops, later]
    split
    · rw [crlf_nil, crlf_cons inLine]
    · rw [crlf_cons inLine]

theorem checkName_crlf (p : Position) (kind : TagKind) (name : List Char) :
    checkName p kind (Text.crlf name) = recast id SyntaxError.crlf (checkName p kind name) := by
  have filled : (Text.crlf name).isEmpty = name.isEmpty := by
    rw [Bool.eq_iff_iff, List.isEmpty_iff, List.isEmpty_iff, crlf_eq_nil_iff]
  unfold checkName
  rw [filled, any_crlf]
  split
  · rfl
  · split
    · rfl
    · split
      · rw [← crlfText_ofList]
        rfl
      · rfl

/-- The name of a tag has no line feed unless the tag is a comment. -/
theorem crlf_token_tag (valid : ValidName kind name) :
    (Token.tag (String.ofList name) kind).crlf = .tag (String.ofList (Text.crlf name)) kind := by
  by_cases comment : kind = .comment
  · rw [Token.crlf, if_pos comment, crlfText_ofList]
  · have inLine : '\n' ∉ name := by
      intro member
      have significant := (valid comment).2 _ member
      rw [isBlank_feed] at significant
      cases significant
    rw [Token.crlf, if_neg comment, crlf_of_notMem inLine]

theorem crlf_opening (d : Delimiters) : Text.crlf d.opening.toList = d.opening.toList :=
  crlf_of_notMem (oneLine_of_validMarker d.opening_valid).2

theorem crlf_closing (d : Delimiters) : Text.crlf d.closing.toList = d.closing.toList :=
  crlf_of_notMem (oneLine_of_validMarker d.closing_valid).2

theorem oneLine_cons {c : Char} {pattern : List Char} (no_return : c ≠ '\r') (no_feed : c ≠ '\n')
    (within : OneLine pattern) : OneLine (c :: pattern) := by
  constructor
  · rw [List.mem_cons, not_or]
    exact ⟨Ne.symm no_return, within.1⟩
  · rw [List.mem_cons, not_or]
    exact ⟨Ne.symm no_feed, within.2⟩

theorem oneLine_changeEnd (d : Delimiters) : OneLine (changeEnd d) :=
  oneLine_cons (by decide) (by decide) (oneLine_of_validMarker d.closing_valid)

theorem oneLine_tripleEnd (d : Delimiters) : OneLine (tripleEnd d) :=
  oneLine_cons (by decide) (by decide) (oneLine_of_validMarker d.closing_valid)

theorem delimiterTag_crlf (d : Delimiters) (p : Position) (lead inner : List Char) :
    delimiterTag d p (Text.crlf lead) (Text.crlf inner) = recast crlf SyntaxError.crlf (delimiterTag d p lead inner) := by
  unfold delimiterTag
  rw [breakOn_crlf (oneLine_changeEnd d) (List.cons_ne_nil _ _)]
  cases breakOn (changeEnd d) inner with
  | none => rfl
  | some found =>
    obtain ⟨markers, rest⟩ := found
    simp only [Option.map_some, Delimiters.read?_crlf, trim_crlf, ← crlfText_ofList]
    cases Delimiters.read? markers with
    | none => rfl
    | some next =>
      simp only [recast, crlf, Token.crlf, crlf_append, crlf_opening, crlf_cons (show '=' ≠ '\n' by decide),
        crlf_of_notMem (oneLine_changeEnd d).2]

theorem tripleTag_crlf (d : Delimiters) (p : Position) (body lead inner : List Char) :
    tripleTag d p (Text.crlf body) (Text.crlf lead) (Text.crlf inner) =
      recast crlf SyntaxError.crlf (tripleTag d p body lead inner) := by
  unfold tripleTag
  rw [breakOn_crlf (oneLine_tripleEnd d) (List.cons_ne_nil _ _)]
  cases breakOn (tripleEnd d) inner with
  | none =>
    simp only [Option.map_none, breakOn_crlf (oneLine_of_validMarker d.closing_valid) d.closing_valid.1, Option.isSome_map]
    split <;> rfl
  | some found =>
    obtain ⟨name, rest⟩ := found
    simp only [Option.map_some, trim_crlf, checkName_crlf]
    cases valid : checkName p .unescaped (trim name) with
    | error e => rfl
    | ok _ =>
      have named := crlf_token_tag (checkName_ok_iff.mp valid)
      simp only [recast, bind, Except.bind, crlf, named, crlf_append, crlf_opening,
        crlf_cons (show '\x7b' ≠ '\n' by decide), crlf_of_notMem (oneLine_tripleEnd d).2]

theorem readSigil_crlf (cs : List Char) : readSigil (Text.crlf cs) = ((readSigil cs).1, Text.crlf (readSigil cs).2) := by
  cases cs with
  | nil => rfl
  | cons c r =>
    by_cases ends : c = '\n'
    · subst ends
      rfl
    · rw [crlf_cons ends, readSigil, readSigil]
      cases TagKind.ofSigil? c with
      | none => rw [crlf_cons ends]
      | some kind => rw [trim_crlf]

theorem plainTag_crlf (d : Delimiters) (p : Position) (body : List Char) :
    plainTag d p (Text.crlf body) = recast crlf SyntaxError.crlf (plainTag d p body) := by
  unfold plainTag
  rw [breakOn_crlf (oneLine_of_validMarker d.closing_valid) d.closing_valid.1]
  cases breakOn d.closing.toList body with
  | none => rfl
  | some found =>
    obtain ⟨inner, rest⟩ := found
    simp only [Option.map_some, trim_crlf, readSigil_crlf, checkName_crlf]
    cases valid : checkName p (readSigil (trim inner)).1 (readSigil (trim inner)).2 with
    | error e => rfl
    | ok _ =>
      have named := crlf_token_tag (checkName_ok_iff.mp valid)
      simp only [recast, bind, Except.bind, crlf, named, crlf_append, crlf_opening, crlf_closing]

theorem tag_crlf (d : Delimiters) (p : Position) (body : List Char) :
    tag d p (Text.crlf body) = recast crlf SyntaxError.crlf (tag d p body) := by
  unfold tag
  rw [takeWhile_crlf, dropWhile_crlf]
  cases inside : body.dropWhile isBlank with
  | nil => exact plainTag_crlf d p body
  | cons c inner =>
    have inLine : c ≠ '\n' := by
      rintro rfl
      have significant := List.head?_dropWhile_not isBlank body
      simp [inside, isBlank_feed] at significant
    rw [crlf_cons inLine]
    dsimp only
    split
    · next same =>
      obtain ⟨rfl, rfl⟩ := List.cons.inj same
      exact delimiterTag_crlf ..
    · next same =>
      obtain ⟨rfl, rfl⟩ := List.cons.inj same
      exact tripleTag_crlf ..
    · next no_change no_triple =>
      split
      · next same => exact absurd (by rw [(List.cons.inj same).1]) (no_change (Text.crlf inner))
      · next same => exact absurd (by rw [(List.cons.inj same).1]) (no_triple (Text.crlf inner))
      · exact plainTag_crlf ..

end

end Lexeme

/-- In a text without carriage returns a converted text is read as the text is. -/
theorem lexeme_crlf {cs : List Char} (no_return : '\r' ∉ cs) (d : Delimiters) (p : Position) :
    lexeme d p (Text.crlf cs) = recast Lexeme.crlf SyntaxError.crlf (lexeme d p cs) := by
  unfold lexeme
  rw [Lexeme.lineBreak?_crlf no_return]
  cases Lexeme.lineBreak? cs with
  | some l => rfl
  | none =>
    have within := oneLine_of_validMarker d.opening_valid
    rw [Option.map_none, isPrefixOf?_crlf within]
    cases d.opening.toList.isPrefixOf? cs with
    | some body => exact Lexeme.tag_crlf d p body
    | none =>
      rw [Option.map_none, Lexeme.spanText_crlf within no_return]
      simp only [recast, Lexeme.crlf, Token.crlf, crlfText_ofList]

/-! ## Runs -/

/-- Where a place of a text is in the converted text. -/
def crlfOffset (source : List Char) (n : Nat) : Nat := bytes (Text.crlf (takeBytes n source))

def LocatedToken.crlf (source : List Char) (t : LocatedToken) : LocatedToken where
  token := t.token.crlf
  position := t.position
  start := crlfOffset source t.start
  raw := crlfText t.raw

/-- The cursor behind the converted text of what was before it. -/
def Cursor.crlf (before : List Char) (c : Cursor) : Cursor :=
  { c with rest := Text.crlf c.rest, offset := bytes (Text.crlf before) }

theorem crlfOffset_append (before after : List Char) :
    crlfOffset (before ++ after) (bytes before) = bytes (Text.crlf before) := by
  rw [crlfOffset, takeBytes_append]

section

variable {source before : List Char} {c d : Cursor} {l : Lexeme} {t : LocatedToken} {tokens : List LocatedToken}

theorem Cursor.locate_crlf (whole : before ++ c.rest = source) (place : c.offset = bytes before) (l : Lexeme) :
    (c.crlf before).locate l.crlf = (c.locate l).crlf source := by
  have start : bytes (Text.crlf before) = crlfOffset source c.offset := by rw [place, ← whole, crlfOffset_append]
  simp only [locate, Cursor.crlf, Lexeme.crlf, LocatedToken.crlf, crlfText_ofList, start]

theorem Cursor.after_crlf (before : List Char) (c : Cursor) (l : Lexeme) :
    (c.crlf before).after l.crlf = (c.after l).crlf (before ++ l.raw) := by
  obtain ⟨token, raw, rest⟩ := l
  cases token <;>
    simp only [after, Cursor.crlf, Lexeme.crlf, Token.crlf, Position.after_crlf, crlf_append, bytes_append]

/-- The tokens of a text without carriage returns, and its fault, are those of the converted text. -/
theorem Cursor.run_crlf (no_return : '\r' ∉ c.rest) (whole : before ++ c.rest = source) (place : c.offset = bytes before) :
    (c.crlf before).run.tokens = c.run.tokens.map (·.crlf source) ∧
      (c.crlf before).run.failure = c.run.failure.map SyntaxError.crlf := by
  induction c using Cursor.run.induct generalizing before with
  | case1 c done =>
    have done' : (c.crlf before).rest = [] := crlf_eq_nil_iff.mpr done
    rw [run_of_nil done, run_of_nil done']
    exact ⟨rfl, rfl⟩
  | case2 c left e read =>
    have left' : (c.crlf before).rest ≠ [] := fun empty => left (crlf_eq_nil_iff.mp empty)
    have read' := lexeme_crlf no_return c.delimiters c.position
    rw [read] at read'
    rw [run_of_error left read, run_of_error left' read']
    exact ⟨rfl, rfl⟩
  | case3 c left l read ih =>
    have left' : (c.crlf before).rest ≠ [] := fun empty => left (crlf_eq_nil_iff.mp empty)
    have read' := lexeme_crlf no_return c.delimiters c.position
    rw [read] at read'
    have cut : l.raw ++ l.rest = c.rest := lexeme_append read
    have none_behind : '\r' ∉ (c.after l).rest := fun member => no_return (cut ▸ List.mem_append_right _ member)
    have place' : (c.after l).offset = bytes (before ++ l.raw) := by rw [bytes_append, ← place]; rfl
    have whole' : before ++ l.raw ++ (c.after l).rest = source := by
      rw [← whole, ← cut, List.append_assoc]
      rfl
    obtain ⟨tokens, failure⟩ := ih none_behind whole' place'
    rw [run_of_ok left read, run_of_ok left' read', after_crlf]
    exact ⟨by rw [List.map_cons, ← tokens, locate_crlf whole place], failure⟩

/-- A token stands in a text. -/
def LocatedToken.In (source : List Char) (t : LocatedToken) : Prop :=
  ∃ before after, source = before ++ (t.raw.toList ++ after) ∧ t.start = bytes before

theorem Cursor.Reads.in_source (reads : Cursor.Reads c tokens d) (whole : before ++ c.rest = source)
    (place : c.offset = bytes before) : ∀ t ∈ tokens, t.In source := by
  induction reads generalizing before with
  | nil => exact List.forall_mem_nil _
  | @cons c d l tokens left read _ ih =>
    have cut : l.raw ++ l.rest = c.rest := lexeme_append read
    have whole' : before ++ l.raw ++ (c.after l).rest = source := by
      rw [← whole, ← cut, List.append_assoc]
      rfl
    have place' : (c.after l).offset = bytes (before ++ l.raw) := by rw [bytes_append, ← place]; rfl
    refine List.forall_mem_cons.mpr ⟨⟨before, l.rest, ?_, place⟩, ih whole' place'⟩
    rw [← whole, ← cut, locate, String.toList_ofList]

theorem LocatedToken.In.stop_crlf (within : t.In source) : (t.crlf source).stop = crlfOffset source t.stop := by
  obtain ⟨before, after, rfl, start⟩ := within
  have ends : t.stop = bytes (before ++ t.raw.toList) := by rw [stop, start, bytes_append]
  rw [ends, ← List.append_assoc, crlfOffset_append, crlf_append, bytes_append]
  simp only [stop, LocatedToken.crlf, start, List.append_assoc, crlfOffset_append, toList_crlfText]

end

theorem tokenize_crlf {source : String} (no_return : '\r' ∉ source.toList) :
    (tokenize (crlfText source)).tokens = (tokenize source).tokens.map (·.crlf source.toList) ∧
      (tokenize (crlfText source)).failure = (tokenize source).failure.map SyntaxError.crlf := by
  have same : tokenize (crlfText source) = (Cursor.crlf [] { rest := source.toList }).run := by
    rw [tokenize, toList_crlfText]
    rfl
  rw [same]
  exact Cursor.run_crlf no_return rfl rfl

theorem tokens_in_source (source : String) : ∀ t ∈ (tokenize source).tokens, t.In source.toList :=
  (tokenize_reads source).in_source (List.nil_append _) rfl

end Mustache

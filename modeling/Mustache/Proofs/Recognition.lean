import Mathlib
import Mustache.Proofs.Locality

/-!
# Tokens between the delimiters in force

A token is read between the delimiters in force at its place, which the changes before it have set: a tag
stands between them, a change names the next pair behind the pair in force, and a text holds no opening marker
and goes as far as it can (`tokens_recognised`). What is read as a tag is told apart once, by `Lexeme.OfTag`.
-/

namespace Mustache
open Text

/-! ## Searches -/

namespace Text

theorem breakOn_eq_none_iff {pattern cs : List Char} : breakOn pattern cs = none ↔ ¬ pattern <:+: cs := by
  induction cs with
  | nil => cases pattern <;> simp [breakOn]
  | cons c r ih =>
    rw [breakOn, List.infix_cons_iff]
    cases here : pattern.isPrefixOf? (c :: r) with
    | some after => simpa using fun none => absurd ⟨after, append_of_isPrefixOf? here⟩ none
    | none => simp [isPrefixOf?_eq_none_iff.mp here, ih]

/-- The pattern does not stand before its first occurrence. -/
theorem not_infix_of_breakOn {pattern cs before after : List Char} (filled : pattern ≠ [])
    (found : breakOn pattern cs = some (before, after)) : ¬ pattern <:+: before := by
  induction cs generalizing before with
  | nil =>
    rw [breakOn] at found
    split at found
    · next empty => exact absurd (List.isEmpty_iff.mp empty) filled
    · cases found
  | cons c r ih =>
    rw [breakOn] at found
    split at found
    · obtain ⟨rfl, _⟩ : [] = before ∧ _ = after := by simpa using found
      simpa using filled
    · next later =>
      obtain ⟨⟨b, a⟩, cut, same⟩ := Option.map_eq_some_iff.mp found
      obtain ⟨rfl, rfl⟩ : c :: b = before ∧ a = after := by simpa using same
      rw [List.infix_cons_iff]
      rintro (here | inside)
      · exact isPrefixOf?_eq_none_iff.mp later (here.trans ⟨pattern ++ a, by simp [breakOn_eq cut]⟩)
      · exact ih cut inside

end Text

/-! ## Tags -/

namespace Lexeme

variable {d : Delimiters} {p : Position} {kind : TagKind} {name body lead inner : List Char} {l : Lexeme}

/-- What the name of a tag must be. -/
def ValidName (kind : TagKind) (name : List Char) : Prop :=
  kind ≠ .comment → name ≠ [] ∧ ∀ c ∈ name, isBlank c = false

theorem checkName_ok_iff : checkName p kind name = .ok () ↔ ValidName kind name := by
  unfold checkName ValidName
  by_cases comment : kind = .comment
  · simp [comment]
  · by_cases empty : name = []
    · simp [comment, empty]
    · simp [comment, empty]

/-- What is read as a tag from the text behind its opening marker. -/
inductive OfTag (d : Delimiters) : List Char → Lexeme → Prop where
  | change {lead inner markers rest : List Char} {next : Delimiters} (blank : ∀ c ∈ lead, isBlank c = true)
    (cut : breakOn (changeEnd d) inner = some (markers, rest)) (named : Delimiters.read? markers = some next) :
    OfTag d (lead ++ '=' :: inner)
      ⟨.delimiters d next, d.opening.toList ++ lead ++ '=' :: markers ++ changeEnd d, rest⟩
  | triple {lead inner name rest : List Char} (blank : ∀ c ∈ lead, isBlank c = true)
    (cut : breakOn (tripleEnd d) inner = some (name, rest)) (valid : ValidName .unescaped (trim name)) :
    OfTag d (lead ++ '\x7b' :: inner)
      ⟨.tag (String.ofList (trim name)) .unescaped, d.opening.toList ++ lead ++ '\x7b' :: name ++ tripleEnd d, rest⟩
  | plain {body inner rest : List Char} (cut : breakOn d.closing.toList body = some (inner, rest))
    (valid : ValidName (readSigil (trim inner)).1 (readSigil (trim inner)).2) :
    OfTag d body ⟨.tag (String.ofList (readSigil (trim inner)).2) (readSigil (trim inner)).1,
      d.opening.toList ++ inner ++ d.closing.toList, rest⟩

theorem ofTag_of_tag (read : tag d p body = .ok l) : OfTag d body l := by
  have whole := List.takeWhile_append_dropWhile (p := isBlank) (l := body)
  have blank : ∀ c ∈ body.takeWhile isBlank, isBlank c = true := fun _ => List.mem_takeWhile_imp
  unfold tag at read
  dsimp only at read
  split at read
  · next inner start =>
    rw [← whole, start]
    unfold delimiterTag at read
    split at read
    · cases read
    · next markers rest cut =>
      split at read <;> cases read
      next next named => exact .change blank cut named
  · next inner start =>
    unfold tripleTag at read
    split at read
    · split at read <;> cases read
    · next name rest cut =>
      cases valid : checkName p .unescaped (trim name) with
      | error e => rw [valid] at read; cases read
      | ok _ =>
        rw [valid] at read; cases read
        have triple := OfTag.triple blank cut (checkName_ok_iff.mp valid)
        rwa [← start, whole] at triple
  · unfold plainTag at read
    split at read
    · cases read
    · next inner rest cut =>
      cases valid : checkName p (readSigil (trim inner)).1 (readSigil (trim inner)).2 with
      | error e => simp only [valid] at read; cases read
      | ok _ =>
        simp only [valid] at read; cases read
        exact .plain cut (checkName_ok_iff.mp valid)

end Lexeme

/-! ## Tokens -/

/-- How a token is written where the delimiters `d` are in force. A change of the delimiters starts from these,
and names its next pair between equals signs. -/
inductive WrittenIn (d : Delimiters) : Token → List Char → Prop where
  | text {content : String} (filled : content ≠ "") (no_feed : '\n' ∉ content.toList)
    (no_marker : ¬ d.opening.toList <:+: content.toList) : WrittenIn d (.text content) content.toList
  | newline {lineBreak : LineBreak} : WrittenIn d (.newline lineBreak) lineBreak.text.toList
  | delimiters {next : Delimiters} {lead markers : List Char} (opening_valid : ValidMarker next.opening)
    (closing_valid : ValidMarker next.closing) (blank : ∀ c ∈ lead, isBlank c = true)
    (named : words markers = [next.opening.toList, next.closing.toList]) :
    WrittenIn d (.delimiters d next)
      (d.opening.toList ++ (lead ++ '=' :: markers ++ ['=']) ++ d.closing.toList)
  | tag {name : String} {kind : TagKind} {inner : List Char} :
    WrittenIn d (.tag name kind) (d.opening.toList ++ inner ++ d.closing.toList)

theorem WrittenIn.marked {d : Delimiters} {token : Token} {raw : List Char} (written : WrittenIn d token raw)
    (tag : token.isTag = true) : ∃ inner, raw = d.opening.toList ++ inner := by
  cases written with
  | delimiters | tag => exact ⟨_, List.append_assoc ..⟩
  | _ => cases tag

theorem Delimiters.words_of_read? {markers : List Char} {d : Delimiters} (read : read? markers = some d) :
    words markers = [d.opening.toList, d.closing.toList] := by
  unfold read? at read
  split at read
  · next opening closing two =>
    unfold make? at read
    split at read <;> cases read
    simpa using two
  · cases read

theorem writtenIn_of_ofTag {d : Delimiters} {body : List Char} {l : Lexeme} (tag : Lexeme.OfTag d body l) :
    WrittenIn d l.token l.raw := by
  cases tag with
  | @change lead inner markers rest next blank cut named =>
    have written : WrittenIn d (.delimiters d next)
        (d.opening.toList ++ (lead ++ '=' :: markers ++ ['=']) ++ d.closing.toList) :=
      .delimiters next.opening_valid next.closing_valid blank (Delimiters.words_of_read? named)
    simpa [Lexeme.changeEnd] using written
  | @triple lead inner name rest blank cut valid =>
    have written : WrittenIn d (.tag (String.ofList (trim name)) .unescaped)
        (d.opening.toList ++ (lead ++ '\x7b' :: name ++ ['\x7d']) ++ d.closing.toList) := .tag
    simpa [Lexeme.tripleEnd] using written
  | plain cut valid => exact .tag

section

variable {d : Delimiters} {p : Position} {a b cs raw rest : List Char} {l : Lexeme}

/-- A text goes on at each of its characters. -/
theorem endsText_inside (span : Lexeme.spanText d.opening.toList (a ++ (b ++ rest)) = (a ++ b, rest)) (filled : b ≠ []) :
    Lexeme.endsText d.opening.toList (b ++ rest) = false := by
  induction a with
  | nil =>
    obtain ⟨c, b, rfl⟩ := List.exists_cons_of_ne_nil filled
    exact (spanText_cons.mp span).1
  | cons c a ih => exact ih (spanText_cons.mp span).2

theorem notMem_feed_of_span (span : Lexeme.spanText d.opening.toList (raw ++ rest) = (raw, rest)) : '\n' ∉ raw := by
  intro member
  obtain ⟨a, b, rfl⟩ := List.append_of_mem member
  have goes_on := endsText_inside (a := a) (b := '\n' :: b) (by simpa using span) (by simp)
  simp [Lexeme.endsText, Lexeme.lineBreak?] at goes_on

theorem not_infix_of_span (span : Lexeme.spanText d.opening.toList (raw ++ rest) = (raw, rest)) :
    ¬ d.opening.toList <:+: raw := by
  rintro ⟨a, b, rfl⟩
  have goes_on := endsText_inside (a := a) (b := d.opening.toList ++ b) (by simpa using span)
    (by simp [d.opening_valid.1])
  have ends : Lexeme.endsText d.opening.toList (d.opening.toList ++ b ++ rest) = true :=
    endsText_of_marker ⟨b ++ rest, by simp⟩
  rw [ends] at goes_on
  cases goes_on

/-- A carriage return at the end of a text is by itself. -/
theorem head_ne_feed_of_span (span : Lexeme.spanText d.opening.toList (raw ++ rest) = (raw, rest))
    (last : raw.getLast? = some '\r') : rest.head? ≠ some '\n' := by
  intro feed
  obtain ⟨a, rfl⟩ := List.getLast?_eq_some_iff.mp last
  obtain ⟨r, rfl⟩ := List.head?_eq_some_iff.mp feed
  have goes_on := endsText_inside (a := a) (b := ['\r']) (by simpa using span) (by simp)
  simp [Lexeme.endsText, Lexeme.lineBreak?] at goes_on

theorem lexeme_written (left : cs ≠ []) (read : lexeme d p cs = .ok l) : WrittenIn d l.token l.raw := by
  have whole := lexeme_append read
  cases ends : Lexeme.endsText d.opening.toList cs with
  | false =>
    obtain ⟨text, span⟩ := span_of_lexeme read ends
    rw [← whole] at span
    have written : WrittenIn d (.text (String.ofList l.raw)) (String.ofList l.raw).toList :=
      .text (by simpa using lexeme_raw_ne_nil left read) (by simpa using notMem_feed_of_span span)
        (by simpa using not_infix_of_span span)
    rw [text]
    simpa using written
  | true =>
    unfold lexeme at read
    split at read
    · next found =>
      cases read
      unfold Lexeme.lineBreak? at found
      split at found <;> cases found
      · exact .newline
      · exact .newline
    · next no_break =>
      split at read
      · exact writtenIn_of_ofTag (Lexeme.ofTag_of_tag read)
      · next no_tag => simp [Lexeme.endsText, no_break, ← isPrefixOf?_isSome, no_tag] at ends

end

/-- A token is read between the delimiters in force after the tokens before it. -/
theorem Cursor.Reads.lexeme_at {c d : Cursor} {before after : List LocatedToken} {t : LocatedToken}
    (reads : c.Reads (before ++ t :: after) d) :
    ∃ (m : Cursor) (l : Lexeme), m.rest ≠ [] ∧ m.delimiters = activeAfter c.delimiters before ∧
      lexeme m.delimiters m.position m.rest = .ok l ∧ t = m.locate l ∧ (m.after l).Reads after d := by
  obtain ⟨m, front, behind⟩ := reads.split
  cases behind with
  | cons left read later => exact ⟨m, _, left, front.delimiters_eq, read, rfl, later⟩

/-- How a token stands among the others: `d` are the delimiters in force at its place, and `after` and `left`
the tokens and the text behind it. -/
structure Recognised (d : Delimiters) (t : LocatedToken) (after : List LocatedToken) (left : List Char) : Prop where
  written : WrittenIn d t.token t.raw.toList
  /-- Texts do not follow each other. -/
  apart : ∀ content, t.token = .text content → ∀ u ∈ after.head?, ∀ other, u.token ≠ .text other
  /-- No line feed follows the carriage return that ends a text. -/
  whole_break : ∀ content, t.token = .text content → content.toList.getLast? = some '\r' →
    (rawText after ++ left).head? ≠ some '\n'

/-- What stands behind a text ends it. -/
theorem recognised_of_reads {m d : Cursor} {l : Lexeme} {after : List LocatedToken} (left : m.rest ≠ [])
    (read : lexeme m.delimiters m.position m.rest = .ok l) (later : (m.after l).Reads after d) :
    Recognised m.delimiters (m.locate l) after d.rest := by
  have behind : rawText after ++ d.rest = l.rest := later.rawText_append_rest
  have spans {content : String} (text : l.token = .text content) :
      l.raw = content.toList ∧ Lexeme.spanText m.delimiters.opening.toList m.rest = (l.raw, l.rest) := by
    cases ends : Lexeme.endsText m.delimiters.opening.toList m.rest with
    | true => exact absurd text ((lexeme_local read ends).1 content)
    | false =>
      obtain ⟨same, span⟩ := span_of_lexeme read ends
      obtain rfl : String.ofList l.raw = content := Token.text.inj (same.symm.trans text)
      exact ⟨by simp, span⟩
  refine ⟨?_, fun content text u next => ?_, fun content text last => ?_⟩
  · simpa [Cursor.locate] using lexeme_written left read
  · obtain ⟨_, span⟩ := spans text
    have stops := spanText_stops m.delimiters.opening.toList m.rest
    rw [span] at stops
    obtain ⟨others, rfl⟩ := List.head?_eq_some_iff.mp next
    cases later with
    | cons more read_next =>
      have same : (m.after l).delimiters = m.delimiters := by
        have text : l.token = .text content := text
        simp [Cursor.after, text]
      rw [same] at read_next
      exact (lexeme_local read_next (stops.resolve_left more)).1
  · obtain ⟨raw, span⟩ := spans text
    rw [← lexeme_append read] at span
    rw [behind]
    exact head_ne_feed_of_span span (raw ▸ last)

theorem recognised_at {source : String} {before after : List LocatedToken} {t : LocatedToken}
    (cut : (tokenize source).tokens = before ++ t :: after) :
    Recognised (activeAfter .standard before) t after (tokenize source).final.rest := by
  have reads := tokenize_reads source
  rw [cut] at reads
  obtain ⟨m, l, left, active, read, rfl, later⟩ := reads.lexeme_at
  rw [← active]
  exact recognised_of_reads left read later

/-- Every token is recognised between the delimiters in force at its place, and these are also the ones that a
walk over the source holds, before and behind a fault. -/
theorem tokens_recognised (source : String) :
    (∀ before t after, (tokenize source).tokens = before ++ t :: after →
      Recognised (activeAfter .standard before) t after (tokenize source).final.rest) ∧
    ∀ n, ((Walk.start source).after n).cursor.delimiters = activeAfter .standard ((tokenize source).tokens.take n) :=
  ⟨fun _ _ _ cut => recognised_at cut, fun n =>
    (Walk.answer_eq { rest := source.toList } n).2.delimiters_eq⟩

/-- A change of the delimiters behind a text that ends with a carriage return. -/
def roundSource : String := "x\r\x7b\x7b= ( )=\x7d\x7d(#a)\n"

def roundChange : LocatedToken :=
  ⟨.delimiters .standard { opening := "(", closing := ")" }, ⟨1, 3⟩, 2, "\x7b\x7b= ( )=\x7d\x7d"⟩

def roundBehind : List LocatedToken := [⟨.tag "a" .sectionStart, ⟨1, 13⟩, 12, "(#a)"⟩, ⟨.newline .lf, ⟨1, 17⟩, 16, "\n"⟩]

theorem round_recognised :
    (tokenize roundSource).tokens = [⟨.text "x\r", {}, 0, "x\r"⟩] ++ roundChange :: roundBehind ∧
      Recognised .standard roundChange roundBehind (tokenize roundSource).final.rest := by
  have cut : (tokenize roundSource).tokens = [⟨.text "x\r", {}, 0, "x\r"⟩] ++ roundChange :: roundBehind := by cbv
  exact ⟨cut, (tokens_recognised roundSource).1 _ _ _ cut⟩

end Mustache

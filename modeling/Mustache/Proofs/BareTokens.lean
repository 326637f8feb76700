import Mustache.Proofs.Indentation

/-!
# Tags of lambdas silenced

Where a tag of a section that calls a lambda gives way to one that leaves the delimiters as they are (`bareTokens`),
the other tokens are read as before (`Cursor.Reads.bare`), and as many lines stand alone: a text in which all those
tags are silenced (`bareSource`) has the same lines but for them (`layout_bareSource`).
-/

namespace Mustache
open Text

/-! ## Tags of lambdas -/

/-- Whether a token opens or ends a section that calls a lambda, given whether the open tags do, innermost first. -/
def Token.ofLambda (lambdas : List String) (opened : List Bool) : Token → Bool
  | .tag name .sectionStart => lambdas.contains name
  | .tag _ .scopeEnd => opened.headD false
  | _ => false

/-- Whether the open tags behind a token call lambdas, innermost first. -/
def Token.opensBehind (lambdas : List String) (opened : List Bool) : Token → List Bool
  | .tag name .sectionStart => lambdas.contains name :: opened
  | .tag _ .invertedStart | .tag _ .parentStart | .tag _ .blockStart => false :: opened
  | .tag _ .scopeEnd => opened.tail
  | _ => opened

/-- A tag that leaves the delimiters as they are, in place of a token. -/
def LocatedToken.silenced (d : Delimiters) (t : LocatedToken) : LocatedToken :=
  { t with token := .delimiters d d, raw := String.ofList (d.changeTag d) }

def bareToken (lambdas : List String) (d : Delimiters) (opened : List Bool) (t : LocatedToken) : LocatedToken :=
  if t.token.ofLambda lambdas opened then t.silenced d else t

/-- Tokens in which the tags of lambdas are silenced. -/
def bareTokens (lambdas : List String) : Delimiters → List Bool → List LocatedToken → List LocatedToken
  | _, _, [] => []
  | d, opened, t :: rest =>
    bareToken lambdas d opened t :: bareTokens lambdas (activeAfter d [t]) (t.token.opensBehind lambdas opened) rest

/-- A text in which the tags of lambdas are silenced. -/
def bareSource (lambdas : List String) (source : String) : String :=
  String.ofList (rawText (bareTokens lambdas .standard [] (tokenize source).tokens))

section

variable {lambdas : List String} {d : Delimiters} {opened : List Bool} {t : LocatedToken} {tokens : List LocatedToken}

theorem exists_tag_of_ofLambda {token : Token} (calls : token.ofLambda lambdas opened = true) :
    ∃ name kind, token = .tag name kind := by
  cases token with
  | tag name kind => exact ⟨name, kind, rfl⟩
  | _ => cases calls

/-! ## Reading them again -/

namespace Cursor.Reads

variable {c c' m : Cursor} {l : Lexeme}

/-- A token that is no text, or is silenced, begins as before with what ends a text. -/
theorem bare_head (lambdas : List String) (opened : List Bool) (rest : List Char) (left : c.rest ≠ [])
    (read : lexeme c.delimiters c.position c.rest = .ok l)
    (ends : Lexeme.endsText c.delimiters.opening.toList c.rest = true) :
    ∃ e old new, c.rest = e ++ old ∧
      (bareToken lambdas c.delimiters opened (c.locate l)).raw.toList ++ rest = e ++ new ∧
      Lexeme.endsText c.delimiters.opening.toList e = true := by
  unfold bareToken
  cases calls : (c.locate l).token.ofLambda lambdas opened with
  | false =>
    refine ⟨l.raw, l.rest, rest, (lexeme_append read).symm, ?_, (lexeme_local read ends).2.1⟩
    simp [Cursor.locate]
  | true =>
    obtain ⟨name, kind, tag⟩ := exists_tag_of_ofLambda calls
    -- Both tags begin with the opening marker, which ends a text.
    have token : l.token = .tag name kind := tag
    obtain ⟨inner, raw⟩ := (lexeme_written left read).marked (by rw [token, Token.isTag])
    have opening := endsText_of_marker (List.prefix_refl c.delimiters.opening.toList)
    obtain ⟨more, cut⟩ : ∃ more, c.delimiters.changeTag c.delimiters = c.delimiters.opening.toList ++ more :=
      ⟨_, List.append_assoc ..⟩
    refine ⟨c.delimiters.opening.toList, inner ++ l.rest, more ++ rest, ?_, ?_, opening⟩
    · rw [← lexeme_append read, raw, List.append_assoc]
    · simp [LocatedToken.silenced, cut]

theorem bareToken_filled (left : c.rest ≠ []) (read : lexeme c.delimiters c.position c.rest = .ok l) :
    (bareToken lambdas d opened (c.locate l)).raw.toList ≠ [] := by
  unfold bareToken
  split
  · simp [LocatedToken.silenced, Delimiters.changeTag]
  · simpa [Cursor.locate] using lexeme_raw_ne_nil left read

/-- A text is read again, whatever tags behind it are silenced. -/
theorem bare_text (left : c.rest ≠ []) (read : lexeme c.delimiters c.position c.rest = .ok l)
    (later : Reads (c.after l) tokens m) (goes_on : Lexeme.endsText c.delimiters.opening.toList c.rest = false)
    (p : Position) :
    lexeme c.delimiters p (l.raw ++ rawText (bareTokens lambdas c.delimiters opened tokens)) =
      .ok (l.before (rawText (bareTokens lambdas c.delimiters opened tokens))) := by
  obtain ⟨text, span⟩ := span_of_lexeme read goes_on
  have filled := lexeme_raw_ne_nil left read
  have stops := spanText_stops c.delimiters.opening.toList c.rest
  have again {rest : List Char} (span : Lexeme.spanText c.delimiters.opening.toList (l.raw ++ rest) = (l.raw, rest)) :
      lexeme c.delimiters p (l.raw ++ rest) = .ok (l.before rest) := by
    rw [lexeme_of_spanText p filled span, ← text]
    rfl
  rw [span] at stops
  rw [← lexeme_append read] at span
  have same : (c.after l).delimiters = c.delimiters := by simp [Cursor.after, text]
  cases later with
  | nil => exact again (by simpa [bareTokens] using spanText_last span)
  | @cons _ _ next tokens more read_next later =>
    -- What ended the text begins what stands behind it now too.
    have ends : Lexeme.endsText (c.after l).delimiters.opening.toList (c.after l).rest = true := by
      rw [same]
      exact stops.resolve_left more
    obtain ⟨e, old, new, before, behind, ends_text⟩ := bare_head lambdas opened
      (rawText (bareTokens lambdas _ _ tokens)) more read_next ends
    rw [same] at behind ends_text
    rw [show l.rest = e ++ old from before] at span
    have cut := spanText_before ends_text span new
    rw [bareTokens, rawText_cons, behind]
    exact again cut

theorem activeAfter_locate (c : Cursor) (l : Lexeme) :
    activeAfter c.delimiters [c.locate l] = (c.after l).delimiters := by
  obtain ⟨token, _, _⟩ := l
  cases token <;> rfl

/-- The first token is read again, or the tag by which it is silenced, and both leave the same delimiters in force. -/
theorem bare_first (left : c.rest ≠ []) (read : lexeme c.delimiters c.position c.rest = .ok l)
    (later : Reads (c.after l) tokens m) (same : c'.delimiters = c.delimiters)
    (whole : c'.rest = rawText (bareTokens lambdas c.delimiters opened (c.locate l :: tokens))) :
    ∃ k : Lexeme, lexeme c'.delimiters c'.position c'.rest = .ok k ∧
      (c'.locate k).content = (bareToken lambdas c.delimiters opened (c.locate l)).content ∧
      k.rest = rawText (bareTokens lambdas (c.after l).delimiters (l.token.opensBehind lambdas opened) tokens) ∧
      (c'.after k).delimiters = (c.after l).delimiters := by
  rw [bareTokens, rawText_cons, activeAfter_locate] at whole
  rw [whole, same]
  cases calls : (c.locate l).token.ofLambda lambdas opened with
  | true =>
    obtain ⟨name, kind, tag⟩ := exists_tag_of_ofLambda calls
    have token : l.token = .tag name kind := tag
    rw [bareToken, if_pos calls, LocatedToken.silenced, String.toList_ofList]
    refine ⟨_, Delimiters.lexeme_changeTag _ _ _ _, rfl, rfl, ?_⟩
    simp [Cursor.after, token]
  | false =>
    have as_before : bareToken lambdas c.delimiters opened (c.locate l) = c.locate l := by simp [bareToken, calls]
    have written : (c.locate l).raw.toList = l.raw := String.toList_ofList
    rw [as_before, written]
    refine ⟨l.before (rawText (bareTokens lambdas _ (l.token.opensBehind lambdas opened) tokens)), ?_, rfl, rfl, ?_⟩
    · cases ends : Lexeme.endsText c.delimiters.opening.toList c.rest with
      | true => exact (lexeme_local read ends).2.2 _ _
      | false =>
        obtain ⟨text, _⟩ := span_of_lexeme read ends
        have unchanged : (c.after l).delimiters = c.delimiters := by simp [Cursor.after, text]
        rw [unchanged]
        exact bare_text left read later ends _
    · simp [Cursor.after, Lexeme.before, same]

/-- Tokens of which the tags of lambdas are silenced are read again. -/
theorem bare (reads : Reads c tokens m) (same : c'.delimiters = c.delimiters)
    (whole : c'.rest = rawText (bareTokens lambdas c.delimiters opened tokens)) :
    ∃ copies m', Reads c' copies m' ∧
      copies.map (·.content) = (bareTokens lambdas c.delimiters opened tokens).map (·.content) ∧ m'.rest = [] := by
  induction reads generalizing c' opened with
  | nil => exact ⟨[], c', .nil, rfl, whole⟩
  | @cons c m l tokens left read later ih =>
    obtain ⟨k, first, content, behind, active⟩ := bare_first left read later same whole
    obtain ⟨copies, m', again, contents, done⟩ := ih active behind
    have more : c'.rest ≠ [] := by
      rw [whole, bareTokens, rawText_cons]
      exact fun none => bareToken_filled left read (List.append_eq_nil_iff.mp none).1
    refine ⟨_, m', .cons more first again, ?_, done⟩
    rw [bareTokens, List.map_cons, List.map_cons, content, contents, activeAfter_locate]
    rfl

end Cursor.Reads

/-! ## Their lines -/

/-- Whether the tags that are open behind some tokens call lambdas, innermost first. -/
def openedAfter (lambdas : List String) (opened : List Bool) (tokens : List LocatedToken) : List Bool :=
  tokens.foldl (fun opened t => t.token.opensBehind lambdas opened) opened

theorem bareTokens_append (lambdas : List String) (d : Delimiters) (opened : List Bool) (a b : List LocatedToken) :
    bareTokens lambdas d opened (a ++ b) =
      bareTokens lambdas d opened a ++ bareTokens lambdas (activeAfter d a) (openedAfter lambdas opened a) b := by
  induction a generalizing d opened with
  | nil => rfl
  | cons t rest ih =>
    rw [List.cons_append, bareTokens, ih, bareTokens]
    rfl

/-- A token stays as it is, or is a tag that may stand alone and is silenced. -/
theorem bareToken_cases (lambdas : List String) (d : Delimiters) (opened : List Bool) (t : LocatedToken) :
    bareToken lambdas d opened t = t ∨
      (∃ name kind, t.token = .tag name kind ∧ kind.standsAlone = true) ∧
        bareToken lambdas d opened t = t.silenced d := by
  cases calls : t.token.ofLambda lambdas opened with
  | false => exact .inl (by simp [bareToken, calls])
  | true =>
    refine .inr ⟨?_, if_pos calls⟩
    obtain ⟨name, kind, tag⟩ := exists_tag_of_ofLambda calls
    rw [tag] at calls
    cases kind <;> first | exact ⟨_, _, tag, rfl⟩ | cases calls

/-- What a token is for its line does not change when it is silenced. -/
theorem map_bareTokens {α : Type} {f : LocatedToken → α}
    (keeps : ∀ d t name kind, t.token = .tag name kind → kind.standsAlone = true → f (t.silenced d) = f t)
    (d : Delimiters) (opened : List Bool) (tokens : List LocatedToken) :
    (bareTokens lambdas d opened tokens).map f = tokens.map f := by
  induction tokens generalizing d opened with
  | nil => rfl
  | cons t rest ih =>
    rw [bareTokens, List.map_cons, List.map_cons, ih]
    congr 1
    rcases bareToken_cases lambdas d opened t with same | ⟨⟨name, kind, tag, alone⟩, silenced⟩
    · rw [same]
    · rw [silenced, keeps d t name kind tag alone]

/-- A line of which the tags of lambdas are silenced. -/
def Line.bare (lambdas : List String) (d : Delimiters) (opened : List Bool) (line : Line) : Line :=
  ⟨bareTokens lambdas d opened line.tokens⟩

namespace Line

theorem standalone_bare (lambdas : List String) (d : Delimiters) (opened : List Bool) (line : Line) :
    (line.bare lambdas d opened).standalone = line.standalone := by
  have roles : (bareTokens lambdas d opened line.tokens).map (role ·.token) = line.tokens.map (role ·.token) := by
    refine map_bareTokens (fun d t name kind tag alone => ?_) d opened line.tokens
    simp [LocatedToken.silenced, role, tag, alone]
  rw [standalone, standalone, bare, roles]

theorem indent_bare (lambdas : List String) (d : Delimiters) (opened : List Bool) (line : Line) :
    (line.bare lambdas d opened).indent = line.indent := by
  rw [indent, indent, standalone_bare, bare]
  cases line.tokens with
  | nil => rfl
  | cons t rest =>
    rcases bareToken_cases lambdas d opened t with same | ⟨⟨name, kind, tag, _⟩, silenced⟩
    · rw [bareTokens, same]
      rfl
    · obtain ⟨token, _, _, _⟩ := t
      obtain rfl : token = .tag name kind := tag
      rw [bareTokens, silenced]
      cases line.standalone <;> rfl

theorem map_isNewline_bare (lambdas : List String) (d : Delimiters) (opened : List Bool) (tokens : List LocatedToken) :
    (bareTokens lambdas d opened tokens).map (·.token.isNewline) = tokens.map (·.token.isNewline) := by
  refine map_bareTokens (fun d t name kind tag _ => ?_) d opened tokens
  simp [LocatedToken.silenced, Token.isNewline, tag]

end Line

/-- Lines of which the tags of lambdas are silenced. -/
def bareLines (lambdas : List String) : Delimiters → List Bool → List Line → List Line
  | _, _, [] => []
  | d, opened, line :: rest =>
    line.bare lambdas d opened ::
      bareLines lambdas (activeAfter d line.tokens) (openedAfter lambdas opened line.tokens) rest

theorem flatMap_bareLines (lambdas : List String) (d : Delimiters) (opened : List Bool) (lines : List Line) :
    (bareLines lambdas d opened lines).flatMap (·.tokens) =
      bareTokens lambdas d opened (lines.flatMap (·.tokens)) := by
  induction lines generalizing d opened with
  | nil => rfl
  | cons line rest ih =>
    rw [bareLines, List.flatMap_cons, ih, List.flatMap_cons, bareTokens_append]
    rfl

theorem bareTokens_inside {tokens : List LocatedToken} (inside : ∀ t ∈ tokens, t.token.isNewline = false) :
    ∀ t ∈ bareTokens lambdas d opened tokens, t.token.isNewline = false := by
  have same := Line.map_isNewline_bare lambdas d opened tokens
  intro t member
  have listed : t.token.isNewline ∈ tokens.map (·.token.isNewline) := same ▸ List.mem_map.mpr ⟨t, member, rfl⟩
  obtain ⟨u, there, equal⟩ := List.mem_map.mp listed
  rw [← equal, inside u there]

theorem Rows.bare {lines : List Line} (rows : Rows lines) (lambdas : List String) (d : Delimiters)
    (opened : List Bool) : Rows (bareLines lambdas d opened lines) := by
  induction rows generalizing d opened with
  | nil => exact .nil
  | @unfinished line filled within =>
    refine .unfinished ?_ (bareTokens_inside within)
    cases tokens : line.tokens <;> simp_all [Line.bare, bareTokens]
  | @cons line rest complete _ ih =>
    refine .cons ?_ (ih _ _)
    obtain ⟨front, last, tokens, break_, inside⟩ := complete
    refine ⟨bareTokens lambdas d opened front, last, ?_, break_, bareTokens_inside inside⟩
    rw [Line.bare, tokens, bareTokens_append]
    rcases bareToken_cases lambdas (activeAfter d front) (openedAfter lambdas opened front) last with
      same | ⟨⟨name, kind, tag, _⟩, _⟩
    · rw [bareTokens, same]
      rfl
    · simp [tag, Token.isNewline] at break_

/-- Where a source has no fault, its silenced one has none either, and the same lines but for the silenced tags. -/
theorem layout_bareSource (lambdas : List String) {source : String} (clean : (layout source).failure = none) :
    (layout (bareSource lambdas source)).failure = none ∧
      (layout (bareSource lambdas source)).lines.map (·.said) =
        (bareLines lambdas .standard [] (layout source).lines).map (·.said) := by
  have written : (bareSource lambdas source).toList =
      rawText (bareTokens lambdas .standard [] (tokenize source).tokens) := String.toList_ofList
  obtain ⟨copies, m, again, contents, done⟩ :
      ∃ copies m, Cursor.Reads { rest := (bareSource lambdas source).toList } copies m ∧ copies.map (·.content) =
        (bareTokens lambdas .standard [] (tokenize source).tokens).map (·.content) ∧ m.rest = [] :=
    (tokenize_reads source).bare rfl written
  have tokenized := Fragment.tokenize_of_reads again done
  have clean' : (tokenize (bareSource lambdas source)).failure = none := by rw [tokenized]
  have same : (wholeLines copies).map (·.said) =
      (wholeLines (bareTokens lambdas .standard [] (tokenize source).tokens)).map (·.said) := by
    refine wholeLines_congr (fun _ _ same => same) ?_
    simpa [LocatedToken.content, Function.comp_def] using congrArg (List.map Prod.fst) contents
  rw [← tokens_of_lines clean, ← flatMap_bareLines, ((rows_of_clean clean).bare lambdas _ _).wholeLines_eq] at same
  refine ⟨clean', ?_⟩
  rw [lines_of_clean clean', tokenized]
  exact same

end

end Mustache

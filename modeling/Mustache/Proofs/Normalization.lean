import Mustache.Proofs.CommentLines

/-!
# Lines keep all but blanks

The lines of a source hold its tokens in order, without a gap and each of them once, up to a fault; what does not
contribute to the output is a blank text or a line break beside the one tag of its line (`layout_normalizes`). The lines
are also what a walk gives that gathers the tokens of another walk until one of them ends a line (`LineWalk`).
-/

namespace Mustache
open Text

/-! ## Walks by lines -/

theorem Walk.rest_next_lt {w : Walk} {t : LocatedToken} {later : Walk} (given : w.next = (some (.ok t), later)) :
    later.cursor.rest.length < w.cursor.rest.length := by
  unfold next at given
  split at given
  · cases given
  · split at given
    · cases given
    · next left =>
      split at given
      · cases given
      · next l read =>
        obtain ⟨_, rfl⟩ := Prod.mk.inj given
        have whole := congrArg List.length (lexeme_append read)
        have taken := List.length_pos_iff.mpr (lexeme_raw_ne_nil left read)
        rw [List.length_append] at whole
        simp only [Cursor.after]
        omega

/-- A walk that gathers the tokens of a walk until a line is whole. -/
structure LineWalk where
  tokens : Walk
  buffer : List LocatedToken := []
  ended : Bool := false

namespace LineWalk

def start (source : String) : LineWalk := { tokens := .start source }

/-- The answer of a walk by lines, a line, a fault or nothing, and the walk after it. A fault ends the walk, and what
has been gathered before it is lost; at the end of the source that is the last line. -/
def next (w : LineWalk) : Option (Except SyntaxError Line) × LineWalk :=
  if w.ended then (none, w)
  else
    match _given : w.tokens.next with
    | (some (.ok t), tokens) =>
      if t.token.isNewline then (some (.ok ⟨w.buffer ++ [t]⟩), { w with tokens, buffer := [] })
      else next { w with tokens, buffer := w.buffer ++ [t] }
    | (some (.error e), tokens) => (some (.error e), { w with tokens, ended := true })
    | (none, tokens) =>
      if w.buffer.isEmpty then (none, { w with tokens, ended := true })
      else (some (.ok ⟨w.buffer⟩), { tokens, buffer := [], ended := true })
termination_by w.tokens.cursor.rest.length
decreasing_by exact Walk.rest_next_lt _given

/-- The answer of a walk after so many others. -/
def answer (w : LineWalk) : Nat → Option (Except SyntaxError Line)
  | 0 => w.next.1
  | n + 1 => w.next.2.answer n

section

variable {w : LineWalk} {later : Walk}

theorem next_of_token {t : LocatedToken} (running : w.ended = false) (given : w.tokens.next = (some (.ok t), later)) :
    w.next = if t.token.isNewline then (some (.ok ⟨w.buffer ++ [t]⟩), { w with tokens := later, buffer := [] })
      else next { w with tokens := later, buffer := w.buffer ++ [t] } := by
  rw [next, if_neg (by simp [running])]
  split <;> simp_all

theorem next_of_error {e : SyntaxError} (running : w.ended = false) (given : w.tokens.next = (some (.error e), later)) :
    w.next = (some (.error e), { w with tokens := later, ended := true }) := by
  rw [next, if_neg (by simp [running])]
  split <;> simp_all

theorem next_of_end (running : w.ended = false) (given : w.tokens.next = (none, later)) :
    w.next = if w.buffer.isEmpty then (none, { w with tokens := later, ended := true })
      else (some (.ok ⟨w.buffer⟩), { tokens := later, buffer := [], ended := true }) := by
  rw [next, if_neg (by simp [running])]
  split <;> simp_all

theorem answer_of_ended (halted : w.ended = true) (n : Nat) : w.answer n = none := by
  have nothing : w.next = (none, w) := by rw [next, if_pos halted]
  induction n with
  | zero => rw [answer, nothing]
  | succ n ih => rw [answer, nothing, ih]

/-- The last answer of a walk, if it is one, is its only one. -/
theorem answer_at_end {last : Option (Except SyntaxError Line)} {v : LineWalk} (ends : w.next = (last, v))
    (halted : v.ended = true) (n : Nat) : w.answer n = last.toList[n]? := by
  cases n with
  | zero =>
    rw [answer, ends]
    cases last <;> rfl
  | succ n =>
    rw [answer, ends, answer_of_ended halted]
    cases last <;> rfl

theorem answer_congr {v : LineWalk} (same : v.next = w.next) (n : Nat) : v.answer n = w.answer n := by
  cases n <;> rw [answer, answer, same]

end

end LineWalk

/-- The lines of a layout in order, and behind them its fault. -/
def Layout.answers (l : Layout) : List (Except SyntaxError Line) := l.lines.map .ok ++ l.failure.toList.map .error

def Tokenization.layout (r : Tokenization) : Layout := ⟨r.lines, r.failure⟩

/-- A walk by lines gives the lines of what it has gathered and of what the walk over tokens still gives. -/
theorem LineWalk.answer_eq {c d : Cursor} {tokens buffer : List LocatedToken} {fault : Option SyntaxError}
    (reads : c.Reads tokens d) (ends : d.Ends fault) (within : ∀ t ∈ buffer, t.token.isNewline = false) (n : Nat) :
    answer { tokens := { cursor := c }, buffer } n = (Tokenization.layout ⟨buffer ++ tokens, fault, d⟩).answers[n]? := by
  induction reads generalizing buffer n with
  | @nil c =>
    rw [List.append_nil, Layout.answers, Tokenization.layout, Tokenization.lines, groupLines_within within]
    cases fault with
    | none =>
      have done : c.rest = [] := ends
      have given : Walk.next { cursor := c } = (none, { cursor := c, ended := true }) := by simp [Walk.next, done]
      have last := next_of_end (w := { tokens := { cursor := c }, buffer }) rfl given
      cases buffer with
      | nil => exact answer_at_end last rfl n
      | cons t rest => exact answer_at_end last rfl n
    | some e =>
      obtain ⟨left, refused⟩ : c.rest ≠ [] ∧ lexeme c.delimiters c.position c.rest = .error e := ends
      have given : Walk.next { cursor := c } = (some (.error e), { cursor := c, ended := true }) := by
        simp [Walk.next, left, refused]
      exact answer_at_end (next_of_error rfl given) rfl n
  | @cons c d l tokens left read later ih =>
    have given : Walk.next { cursor := c } = (some (.ok (c.locate l)), { cursor := c.after l }) := by
      simp [Walk.next, left, read]
    have step := next_of_token (w := { tokens := { cursor := c }, buffer }) rfl given
    cases break_ : (c.locate l).token.isNewline with
    | true =>
      rw [if_pos break_] at step
      have complete : ∀ line ∈ [(⟨buffer ++ [c.locate l]⟩ : Line)], line.Complete :=
        List.forall_mem_singleton.mpr ⟨buffer, c.locate l, rfl, break_, within⟩
      have lines := Tokenization.lines_behind complete ⟨tokens, fault, d⟩
      rw [List.flatMap_singleton, List.append_assoc, List.singleton_append] at lines
      rw [Layout.answers, Tokenization.layout, lines]
      cases n with
      | zero => rw [answer, step]; rfl
      | succ n =>
        rw [answer, step]
        exact ih ends (List.forall_mem_nil _) n
    | false =>
      rw [if_neg (by simp [break_])] at step
      have longer := ih ends (List.forall_mem_append.mpr ⟨within, List.forall_mem_singleton.mpr break_⟩) n
      rw [answer_congr step, longer, List.append_assoc, List.singleton_append]

/-! ## What stands alone -/

namespace Line

variable {line : Line} {token : Token} {source : String}

theorem role_eq_blank_iff : role token = .blank ↔ token.isBlank = true ∨ token.isNewline = true := by
  cases token with
  | text content =>
    rw [role]
    split <;> simp_all [Token.isNewline]
  | newline lineBreak => simp [role, Token.isNewline]
  | delimiters previous next => simp [role, Token.isBlank, Token.isNewline]
  | tag name kind =>
    rw [role]
    split <;> simp [Token.isBlank, Token.isNewline]

theorem role_eq_tag_iff : role token = .tag ↔
    token.isTag = true ∧ ∀ name, token ≠ .tag name .interpolation ∧ token ≠ .tag name .unescaped := by
  cases token with
  | text content =>
    rw [role]
    split <;> simp [Token.isTag]
  | newline lineBreak => simp [role, Token.isTag]
  | delimiters previous next => simp [role, Token.isTag]
  | tag name kind => cases kind <;> simp [role, Token.isTag, TagKind.standsAlone]

/-- A line with one tag or change of the delimiters, which writes no value, among blank texts and line breaks. -/
def OneTag (line : Line) : Prop :=
  ∃ front t back, line.tokens = front ++ t :: back ∧ t.token.isTag = true ∧
    (∀ name, t.token ≠ .tag name .interpolation ∧ t.token ≠ .tag name .unescaped) ∧
    ∀ u ∈ front ++ back, u.token.isBlank = true ∨ u.token.isNewline = true

theorem standalone_iff_oneTag : line.standalone = true ↔ line.OneTag := by
  simp only [OneTag, ← and_assoc, ← role_eq_blank_iff]
  simp only [and_assoc]
  constructor
  · intro alone
    obtain ⟨t, member, tag⟩ := exists_tag_of_standalone alone
    obtain ⟨front, back, tokens⟩ := List.append_of_mem member
    obtain ⟨is_tag, no_value⟩ := role_eq_tag_iff.mp tag
    exact ⟨front, t, back, tokens, is_tag, no_value, blank_beside_tag alone tokens tag⟩
  · rintro ⟨front, t, back, tokens, is_tag, no_value, blank⟩
    exact standalone_of_tag tokens (role_eq_tag_iff.mpr ⟨is_tag, no_value⟩) blank

theorem emits_eq_false_iff {t : LocatedToken} : line.emits t = false ↔ t.token.isTag = false ∧ line.OneTag := by
  rw [emits, Bool.or_eq_false_iff, Bool.not_eq_false', standalone_iff_oneTag, and_comm]

/-- What does not contribute to the output is a blank text or a line break. -/
theorem blank_of_not_emits {t : LocatedToken} (member : t ∈ line.tokens) (hidden : line.emits t = false) :
    t.token.isBlank = true ∨ t.token.isNewline = true := by
  obtain ⟨no_tag, front, tag, back, tokens, is_tag, _, blank⟩ := emits_eq_false_iff.mp hidden
  rw [tokens, List.mem_append, List.mem_cons] at member
  rcases member with before | rfl | behind
  · exact blank t (List.mem_append_left _ before)
  · simp [is_tag] at no_tag
  · exact blank t (List.mem_append_right _ behind)

end Line

theorem isBlank_of_raw {source : String} {t : LocatedToken} (member : t ∈ (tokenize source).tokens)
    (blank : t.token.isBlank = true ∨ t.token.isNewline = true) : ∀ c ∈ t.raw.toList, isBlank c = true := by
  obtain ⟨before, after, cut⟩ := List.append_of_mem member
  have written := (recognised_at cut).written
  revert written blank
  generalize t.token = token
  generalize t.raw.toList = raw
  intro blank written
  cases written with
  | text => simpa [Token.isBlank, Token.isNewline] using blank
  | @newline lineBreak =>
    have feed : isBlank '\n' = true := by decide
    have return_ : isBlank '\r' = true := by decide
    cases lineBreak <;> simp [LineBreak.text, feed, return_]
  | delimiters | tag => simp [Token.isBlank, Token.isNewline] at blank

/-! ## What is left out -/

/-- A text is what tokens are written as, with some blank texts and line breaks left out. -/
inductive WithoutBlanks : List LocatedToken → List Char → Prop where
  | nil : WithoutBlanks [] []
  | written {t : LocatedToken} {tokens : List LocatedToken} {text : List Char} (others : WithoutBlanks tokens text) :
    WithoutBlanks (t :: tokens) (t.raw.toList ++ text)
  | left {t : LocatedToken} {tokens : List LocatedToken} {text : List Char}
    (blank : t.token.isBlank = true ∨ t.token.isNewline = true) (others : WithoutBlanks tokens text) :
    WithoutBlanks (t :: tokens) text

namespace WithoutBlanks

variable {a b : List LocatedToken} {x y : List Char} {source : String}

theorem append (first : WithoutBlanks a x) (second : WithoutBlanks b y) : WithoutBlanks (a ++ b) (x ++ y) := by
  induction first with
  | nil => exact second
  | written _ ih =>
    rw [List.append_assoc]
    exact .written ih
  | left blank _ ih => exact .left blank ih

theorem of_filter {p : LocatedToken → Bool}
    (blank : ∀ t ∈ a, p t = false → t.token.isBlank = true ∨ t.token.isNewline = true) :
    WithoutBlanks a (rawText (a.filter p)) := by
  induction a with
  | nil => exact .nil
  | cons t rest ih =>
    obtain ⟨first, others⟩ := List.forall_mem_cons.mp blank
    cases stays : p t with
    | true =>
      rw [List.filter_cons_of_pos stays, rawText_cons]
      exact .written (ih others)
    | false =>
      rw [List.filter_cons_of_neg (by simp [stays])]
      exact .left (first stays) (ih others)

/-- Every character that is not blank stays. -/
theorem filter_eq (without : WithoutBlanks a x) (inside : ∀ t ∈ a, t ∈ (tokenize source).tokens) :
    x.filter (!isBlank ·) = (rawText a).filter (!isBlank ·) := by
  induction without with
  | nil => rfl
  | written _ ih => rw [rawText_cons, List.filter_append, List.filter_append, ih (List.forall_mem_cons.mp inside).2]
  | @left t tokens text blank _ ih =>
    obtain ⟨first, others⟩ := List.forall_mem_cons.mp inside
    have nothing : t.raw.toList.filter (!isBlank ·) = [] := by
      simpa [List.filter_eq_nil_iff] using isBlank_of_raw first blank
    rw [rawText_cons, List.filter_append, nothing, List.nil_append, ih others]

end WithoutBlanks

theorem withoutBlanks_emitted (lines : List Line) :
    WithoutBlanks (lines.flatMap (·.tokens)) (rawText (lines.flatMap (·.emitted))) := by
  induction lines with
  | nil => exact .nil
  | cons line rest ih =>
    rw [List.flatMap_cons, List.flatMap_cons, rawText_append]
    exact .append (.of_filter fun t member hidden => line.blank_of_not_emits member hidden) ih

/-! ## The lines of a source -/

theorem rows_of_layout (source : String) : Rows (layout source).lines := by
  cases failed : (tokenize source).failure with
  | none => exact rows_of_clean failed
  | some e =>
    have lines : (layout source).lines = (groupLines (tokenize source).tokens).1 := by simp [layout, failed]
    rw [lines, ← List.append_nil (groupLines _).1]
    exact .append (groupLines_complete _) .nil

/-- Lines that fill a source without a gap begin where the line before ends. -/
theorem Tiles.isChain {lines : List Line} (filled : ∀ line ∈ lines, line.tokens ≠ []) {n m : Nat}
    (tiles : Tiles n (lines.flatMap (·.tokens)) m) : lines.IsChain fun a b => b.start = a.stop := by
  induction lines generalizing n with
  | nil => exact .nil
  | cons a rest ih =>
    obtain ⟨first, others⟩ := List.forall_mem_cons.mp filled
    rw [List.flatMap_cons] at tiles
    obtain ⟨k, here, later⟩ := tiles.split
    refine List.isChain_cons.mpr ⟨fun b next => ?_, ih others later⟩
    obtain ⟨back, rfl⟩ := List.head?_eq_some_iff.mp next
    rw [List.flatMap_cons] at later
    rw [← later.start_line (others b List.mem_cons_self), ← here.stop_line (a := []) first]

/-- What is left of tokens when the line that a fault cuts off is left out. -/
theorem lines_of_fault {source : String} (failed : (layout source).failure ≠ none) :
    (layout source).lines.flatMap (·.tokens) = (tokenize source).tokens.rdropWhile (!·.token.isNewline) := by
  have cut_off : (tokenize source).failure.isSome = true := Option.isSome_iff_ne_none.mpr failed
  have lines : (layout source).lines = (groupLines (tokenize source).tokens).1 := by simp [layout, cut_off]
  have whole := groupLines_flatten (tokenize source).tokens
  have last := getLast_of_complete (groupLines_complete (tokenize source).tokens)
  rw [lines]
  generalize (groupLines (tokenize source).tokens).1.flatMap (·.tokens) = complete at whole last
  have behind : ∀ t ∈ (groupLines (tokenize source).tokens).2.reverse, (!t.token.isNewline) = true := by
    simpa using groupLines_unfinished (tokenize source).tokens
  have stays : complete.rdropWhile (!·.token.isNewline) = complete := by
    refine List.rdropWhile_eq_self_iff.mpr fun filled => ?_
    simpa using last _ (List.getLast?_eq_some_getLast filled)
  rw [← whole, List.rdropWhile, List.reverse_append, List.dropWhile_append_of_pos behind, ← List.rdropWhile, stays]

theorem complete_of_dropLast {source : String} : ∀ line ∈ (layout source).lines.dropLast, line.Complete := by
  intro line member
  rcases List.eq_nil_or_concat (layout source).lines with none | ⟨front, last, lines⟩
  · simp [none] at member
  · rw [List.concat_eq_append] at lines
    rw [lines, List.dropLast_concat] at member
    exact layout_complete lines line member

/-- The lines of a source have its text, or the beginning of it that a fault leaves. -/
theorem rawText_layout (source : String) :
    rawText ((layout source).lines.flatMap (·.tokens)) <+: source.toList ∧
      ((layout source).failure = none → rawText ((layout source).lines.flatMap (·.tokens)) = source.toList) := by
  have text : rawText (tokenize source).tokens ++ (tokenize source).final.rest = source.toList :=
    (tokenize_reads source).rawText_append_rest
  have ends : (tokenize source).final.Ends (tokenize source).failure := (Cursor.run_spec _).2
  obtain ⟨unfinished, all⟩ := Fragment.Extraction.tokens_of_layout source
  refine ⟨?_, fun clean => ?_⟩
  · rw [← text, all, rawText_append, List.append_assoc]
    exact List.prefix_append _ _
  · rw [show (tokenize source).failure = none from clean] at ends
    have done : (tokenize source).final.rest = [] := ends
    rw [tokens_of_lines clean, ← text, done, List.append_nil]

/-- How the lines of a source divide its tokens, and what of them they leave out. -/
structure Layout.Normalizes (source : String) (l : Layout) : Prop where
  /-- A walk gives the lines, then the fault if there is one, and then nothing any more. -/
  answers : ∀ n, (LineWalk.start source).answer n = l.answers[n]?
  failure : l.failure = (tokenize source).failure
  /-- Without a fault the lines hold all tokens. -/
  whole : l.failure = none → l.lines.flatMap (·.tokens) = (tokenize source).tokens
  /-- With a fault they hold those up to the last line break. -/
  faulty : l.failure ≠ none → l.lines.flatMap (·.tokens) = (tokenize source).tokens.rdropWhile (!·.token.isNewline)
  filled : ∀ line ∈ l.lines, line.tokens ≠ []
  /-- A line break is the last token of its line. -/
  inner : ∀ line ∈ l.lines, ∀ t ∈ line.tokens.dropLast, t.token.isNewline = false
  /-- Every line but the last has a line break. -/
  complete : ∀ line ∈ l.lines.dropLast, ∃ t ∈ line.tokens.getLast?, t.token.isNewline = true
  adjacent : l.lines.IsChain fun a b => b.start = a.stop
  hidden : ∀ line ∈ l.lines, ∀ t ∈ line.tokens, line.emits t = false ↔ t.token.isTag = false ∧ line.OneTag
  tags : ∀ line ∈ l.lines, ∀ t ∈ line.tokens, t.token.isTag = true → t ∈ line.emitted
  /-- The lines hold the text of the source, or the beginning of it that a fault leaves. -/
  text : rawText (l.lines.flatMap (·.tokens)) <+: source.toList ∧
    (l.failure = none → rawText (l.lines.flatMap (·.tokens)) = source.toList)
  /-- Of that text only blank texts and line breaks do not contribute to the output. -/
  written : WithoutBlanks (l.lines.flatMap (·.tokens)) (rawText (l.lines.flatMap (·.emitted)))
  significant : (rawText (l.lines.flatMap (·.emitted))).filter (!isBlank ·) =
    (rawText (l.lines.flatMap (·.tokens))).filter (!isBlank ·)

theorem layout_normalizes (source : String) : (layout source).Normalizes source := by
  have reads := tokenize_reads source
  have filled := (rows_of_layout source).filled
  obtain ⟨unfinished, all⟩ := Fragment.Extraction.tokens_of_layout source
  have inside : ∀ t ∈ (layout source).lines.flatMap (·.tokens), t ∈ (tokenize source).tokens := by
    intro t member
    rw [all]
    exact List.mem_append_left _ member
  refine ⟨fun n => ?_, rfl, tokens_of_lines, lines_of_fault, filled, fun line => isNewline_of_mem_dropLast,
    fun line member => ?_, ?_, fun line _ t _ => line.emits_eq_false_iff, fun line _ t member tag => ?_,
    rawText_layout source, withoutBlanks_emitted _, (withoutBlanks_emitted _).filter_eq inside⟩
  · exact LineWalk.answer_eq reads (Cursor.run_spec _).2 (List.forall_mem_nil _) n
  · obtain ⟨_, t, tokens, break_, _⟩ := complete_of_dropLast line member
    exact ⟨t, by simp [tokens], break_⟩
  · have tiles := reads.tiles
    rw [all] at tiles
    obtain ⟨k, lines, _⟩ := tiles.split
    exact lines.isChain filled
  · exact List.mem_filter.mpr ⟨member, by simp [Line.emits, tag]⟩

end Mustache

import Mustache.Line

/-!
# Tokens tile their source

The tokens of a source follow each other without a gap from its beginning on (`Tiles`), each with the
position that its place has (`positionAt`), up to the end or to the place of the one fault. A walk that is
asked for one token after another gives just these, then the fault, and then nothing any more
(`tokenize_covers`).
-/

namespace Mustache
open Text

/-! ## Places in a text -/

namespace Text

theorem takeBytes_append (a b : List Char) : takeBytes (bytes a) (a ++ b) = a := by
  induction a with
  | nil => cases b <;> simp [takeBytes, bytes]
  | cons c r ih =>
    have size : bytes (c :: r) = c.utf8Size + bytes r := by simp [bytes]
    have pos := c.utf8Size_pos
    rw [List.cons_append, takeBytes, size, if_neg (by omega), Nat.add_sub_cancel_left, ih]

theorem dropBytes_append (a b : List Char) : dropBytes (bytes a) (a ++ b) = b := by
  have whole := takeBytes_append_dropBytes (bytes a) (a ++ b)
  rw [takeBytes_append] at whole
  exact List.append_cancel_left whole

/-- The part of a text between two offsets, when what stands before and behind it is known. -/
theorem slice_append (a b c : List Char) : slice (a ++ b ++ c) (bytes a) (bytes a + bytes b) = b := by
  rw [slice, List.append_assoc, dropBytes_append, Nat.add_sub_cancel_left, takeBytes_append]

end Text

namespace Position

/-- The position of the place behind some characters from the beginning of a source: one line for every
line feed, and one column for every character since the last of them. -/
def behind (cs : List Char) : Position where
  line := 1 + cs.count '\n'
  column := 1 + (cs.reverse.takeWhile (· ≠ '\n')).length

theorem after_eq_behind (cs : List Char) : Position.after {} cs = behind cs := by
  -- A position changes with the last character, so the induction is on the characters from the end.
  suffices general : ∀ back : List Char, Position.after {} back.reverse = behind back.reverse by
    simpa using general cs.reverse
  intro back
  induction back with
  | nil => rfl
  | cons c r ih =>
    rw [List.reverse_cons, after_append, ih]
    by_cases feed : c = '\n'
    · simp [after, next, behind, feed, Nat.add_assoc]
    · simp [after, next, behind, feed, Nat.add_comm]

end Position

/-- The position of a byte offset of a source. -/
def positionAt (source : String) (offset : Nat) : Position := .behind (takeBytes offset source.toList)

/-! ## Runs of tokens -/

/-- The source text of some tokens in a row. -/
def rawText (tokens : List LocatedToken) : List Char := tokens.flatMap (·.raw.toList)

@[simp] theorem rawText_nil : rawText [] = [] := rfl

@[simp] theorem rawText_cons (t : LocatedToken) (tokens : List LocatedToken) :
    rawText (t :: tokens) = t.raw.toList ++ rawText tokens := List.flatMap_cons

@[simp] theorem rawText_append (a b : List LocatedToken) : rawText (a ++ b) = rawText a ++ rawText b :=
  List.flatMap_append

/-- Tokens fill a source from one byte offset to another: none is empty, and each starts where the one before
it stops. -/
inductive Tiles : Nat → List LocatedToken → Nat → Prop where
  | nil {n : Nat} : Tiles n [] n
  | cons {n stop : Nat} {t : LocatedToken} {tokens : List LocatedToken} (starts : t.start = n) (filled : t.raw ≠ "")
    (rest : Tiles t.stop tokens stop) : Tiles n (t :: tokens) stop

/-- The delimiters in force after some tokens. -/
def activeAfter (d : Delimiters) (tokens : List LocatedToken) : Delimiters :=
  tokens.foldl (fun active t =>
    match t.token with
    | .delimiters _ next => next
    | _ => active) d

/-- Reading from one cursor yields tokens and comes to another cursor. -/
inductive Cursor.Reads : Cursor → List LocatedToken → Cursor → Prop where
  | nil {c : Cursor} : Reads c [] c
  | cons {c d : Cursor} {l : Lexeme} {tokens : List LocatedToken} (left : c.rest ≠ [])
    (read : lexeme c.delimiters c.position c.rest = .ok l) (rest : Reads (c.after l) tokens d) :
    Reads c (c.locate l :: tokens) d

namespace Cursor.Reads

variable {c d m : Cursor} {tokens first second : List LocatedToken}

theorem append (before : Reads c first m) (behind : Reads m second d) : Reads c (first ++ second) d := by
  induction before with
  | nil => exact behind
  | cons left read _ ih => exact .cons left read (ih behind)

theorem split (reads : Reads c (first ++ second) d) : ∃ m, Reads c first m ∧ Reads m second d := by
  induction first generalizing c with
  | nil => exact ⟨c, .nil, reads⟩
  | cons t rest ih =>
    cases reads with
    | cons left read later =>
      obtain ⟨m, before, behind⟩ := ih later
      exact ⟨m, .cons left read before, behind⟩

/-- What is read and what is left make up what was there. -/
theorem rawText_append_rest (reads : Reads c tokens d) : rawText tokens ++ d.rest = c.rest := by
  induction reads with
  | nil => rfl
  | @cons c d l tokens _ read _ ih =>
    rw [rawText_cons, List.append_assoc, ih]
    simpa [Cursor.locate, Cursor.after] using lexeme_append read

theorem offset_eq (reads : Reads c tokens d) : d.offset = c.offset + bytes (rawText tokens) := by
  induction reads with
  | nil => simp [bytes]
  | @cons c d l tokens _ _ _ ih =>
    rw [ih, rawText_cons, bytes_append]
    simp [Cursor.locate, Cursor.after, Nat.add_assoc]

theorem position_eq (reads : Reads c tokens d) : d.position = c.position.after (rawText tokens) := by
  induction reads with
  | nil => rfl
  | @cons c d l tokens _ _ _ ih =>
    rw [ih, rawText_cons, Position.after_append]
    simp [Cursor.locate, Cursor.after]

theorem delimiters_eq (reads : Reads c tokens d) : d.delimiters = activeAfter c.delimiters tokens := by
  induction reads with
  | nil => rfl
  | cons _ _ _ ih =>
    rw [ih]
    rfl

theorem tiles (reads : Reads c tokens d) : Tiles c.offset tokens d.offset := by
  induction reads with
  | nil => exact .nil
  | @cons c d l tokens left read _ ih =>
    have filled : (c.locate l).raw ≠ "" := by
      simpa [Cursor.locate] using lexeme_raw_ne_nil left read
    have stop : (c.after l).offset = (c.locate l).stop := by
      simp [Cursor.after, Cursor.locate, LocatedToken.stop]
    exact .cons rfl filled (stop ▸ ih)

end Cursor.Reads

/-- What ends a run: the end of the source, or a fault of the tag at the place. -/
def Cursor.Ends (c : Cursor) (fault : Option SyntaxError) : Prop :=
  match fault with
  | none => c.rest = []
  | some e => c.rest ≠ [] ∧ lexeme c.delimiters c.position c.rest = .error e

namespace Cursor

variable {c : Cursor}

theorem run_of_nil (done : c.rest = []) : c.run = ⟨[], none, c⟩ := by
  rw [run, dif_pos done]

theorem run_of_error {e : SyntaxError} (left : c.rest ≠ [])
    (refused : lexeme c.delimiters c.position c.rest = .error e) : c.run = ⟨[], some e, c⟩ := by
  rw [run, dif_neg left]
  split <;> simp_all

theorem run_of_ok {l : Lexeme} (left : c.rest ≠ []) (read : lexeme c.delimiters c.position c.rest = .ok l) :
    c.run = { (c.after l).run with tokens := c.locate l :: (c.after l).run.tokens } := by
  rw [run, dif_neg left]
  split <;> simp_all

/-- A run yields what can be read first, and goes on from there. -/
theorem Reads.run_eq {d : Cursor} {tokens : List LocatedToken} (reads : Reads c tokens d) :
    c.run = { d.run with tokens := tokens ++ d.run.tokens } := by
  induction reads with
  | nil => rfl
  | cons left read _ ih => rw [run_of_ok left read, ih, List.cons_append]

end Cursor

theorem Cursor.run_spec (c : Cursor) : c.Reads c.run.tokens c.run.final ∧ c.run.final.Ends c.run.failure := by
  fun_induction Cursor.run c with
  | case1 c done => exact ⟨.nil, done⟩
  | case2 c left e read => exact ⟨.nil, left, read⟩
  | case3 c left l read later ih => exact ⟨.cons left read ih.1, ih.2⟩

theorem tokenize_reads (source : String) :
    Cursor.Reads { rest := source.toList } (tokenize source).tokens (tokenize source).final :=
  (Cursor.run_spec _).1

namespace Lexeme

theorem checkName_error {p : Position} {kind : TagKind} {name : List Char} {e : SyntaxError}
    (refused : checkName p kind name = .error e) : e.position = p := by
  unfold checkName at refused
  split at refused
  · cases refused
  · split at refused
    · cases refused
      rfl
    · split at refused <;> cases refused
      rfl

theorem delimiterTag_error {d : Delimiters} {p : Position} {lead inner : List Char} {e : SyntaxError}
    (refused : delimiterTag d p lead inner = .error e) : e.position = p := by
  unfold delimiterTag at refused
  split at refused
  · cases refused
    rfl
  · split at refused <;> cases refused
    rfl

theorem tripleTag_error {d : Delimiters} {p : Position} {body lead inner : List Char} {e : SyntaxError}
    (refused : tripleTag d p body lead inner = .error e) : e.position = p := by
  unfold tripleTag at refused
  split at refused
  · split at refused <;> cases refused <;> rfl
  · next name rest found =>
    cases valid : checkName p .unescaped (trim name) with
    | error f =>
      obtain rfl : f = e := by simpa [valid, bind, Except.bind] using refused
      exact checkName_error valid
    | ok _ => simp [valid, bind, Except.bind] at refused

theorem plainTag_error {d : Delimiters} {p : Position} {body : List Char} {e : SyntaxError}
    (refused : plainTag d p body = .error e) : e.position = p := by
  unfold plainTag at refused
  split at refused
  · cases refused
    rfl
  · next inner rest found =>
    cases valid : checkName p (readSigil (trim inner)).1 (readSigil (trim inner)).2 with
    | error f =>
      obtain rfl : f = e := by simpa [valid, bind, Except.bind] using refused
      exact checkName_error valid
    | ok _ => simp [valid, bind, Except.bind] at refused

end Lexeme

/-- A fault has the position of its tag. -/
theorem lexeme_error {d : Delimiters} {p : Position} {cs : List Char} {e : SyntaxError}
    (refused : lexeme d p cs = .error e) : e.position = p := by
  unfold lexeme at refused
  split at refused
  · cases refused
  · split at refused
    · unfold Lexeme.tag at refused
      dsimp only at refused
      split at refused
      · exact Lexeme.delimiterTag_error refused
      · exact Lexeme.tripleTag_error refused
      · exact Lexeme.plainTag_error refused
    · cases refused

/-! ## Walks -/

/-- A walk over a source that is asked for one token after another. -/
structure Walk where
  cursor : Cursor
  ended : Bool := false

namespace Walk

def start (source : String) : Walk := { cursor := { rest := source.toList } }

/-- The answer of a walk, a token, a fault or nothing, and the walk after it. A fault ends the walk. -/
def next (w : Walk) : Option (Except SyntaxError LocatedToken) × Walk :=
  if w.ended then (none, w)
  else if w.cursor.rest = [] then (none, { w with ended := true })
  else
    match lexeme w.cursor.delimiters w.cursor.position w.cursor.rest with
    | .error e => (some (.error e), { w with ended := true })
    | .ok l => (some (.ok (w.cursor.locate l)), { w with cursor := w.cursor.after l })

/-- A walk after so many answers. -/
def after (w : Walk) : Nat → Walk
  | 0 => w
  | n + 1 => w.next.2.after n

def answer (w : Walk) (n : Nat) : Option (Except SyntaxError LocatedToken) := (w.after n).next.1

theorem after_ended {w : Walk} (halted : w.ended = true) (n : Nat) : w.after n = w := by
  induction n with
  | zero => rfl
  | succ n ih => simp [after, next, halted, ih]

theorem after_succ (w : Walk) (n : Nat) : w.after (n + 1) = (w.after n).next.2 := by
  induction n generalizing w with
  | zero => rfl
  | succ n ih => exact ih w.next.2

/-- A tag at fault moves nothing. -/
theorem cursor_next_of_error {w : Walk} {e : SyntaxError} (refused : w.next.1 = some (.error e)) :
    w.next.2.cursor = w.cursor := by
  unfold next at refused ⊢
  split
  · rfl
  · split
    · rfl
    · split
      · rfl
      · simp_all

end Walk

/-- The tokens of a reading in order, and behind them its fault. -/
def Tokenization.answers (r : Tokenization) : List (Except SyntaxError LocatedToken) :=
  r.tokens.map .ok ++ r.failure.toList.map .error

/-- Where no token is left a walk gives the fault, if there is one, and stops. -/
theorem Walk.answer_at_end (c : Cursor) (fault : Option SyntaxError)
    (ends : Walk.next { cursor := c } = (fault.map .error, { cursor := c, ended := true })) (n : Nat) :
    Walk.answer { cursor := c } n = (fault.toList.map .error)[n]? ∧ (Walk.after { cursor := c } n).cursor = c := by
  cases n with
  | zero =>
    refine ⟨?_, rfl⟩
    rw [answer, after, ends]
    cases fault <;> rfl
  | succ n =>
    have halted : after { cursor := c } (n + 1) = { cursor := c, ended := true } := by
      rw [after, ends]
      exact after_ended rfl n
    refine ⟨?_, by rw [halted]⟩
    rw [answer, halted]
    cases fault <;> rfl

/-- A walk gives the tokens and the fault of a run, and has then read the tokens that it gave. -/
theorem Walk.answer_eq (c : Cursor) (n : Nat) :
    Walk.answer { cursor := c } n = c.run.answers[n]? ∧
      c.Reads (c.run.tokens.take n) (Walk.after { cursor := c } n).cursor := by
  fun_induction Cursor.run c generalizing n with
  | case1 c done =>
    have ends : next { cursor := c } = (none, { cursor := c, ended := true }) := by simp [next, done]
    obtain ⟨given, stands⟩ := answer_at_end c none ends n
    refine ⟨given, ?_⟩
    rw [stands, List.take_nil]
    exact .nil
  | case2 c left e read =>
    have ends : next { cursor := c } = (some (.error e), { cursor := c, ended := true }) := by simp [next, left, read]
    obtain ⟨given, stands⟩ := answer_at_end c (some e) ends n
    refine ⟨given, ?_⟩
    rw [stands, List.take_nil]
    exact .nil
  | case3 c left l read later ih =>
    have first : next { cursor := c } = (some (.ok (c.locate l)), { cursor := c.after l }) := by
      simp [next, left, read]
    cases n with
    | zero => exact ⟨by rw [answer, after, first]; rfl, .nil⟩
    | succ n =>
      obtain ⟨given, reads⟩ := ih n
      rw [answer, after, first]
      exact ⟨given, .cons left read reads⟩

/-! ## The tiling -/

/-- How a reading covers its source. -/
structure Tokenization.Covers (source : String) (r : Tokenization) : Prop where
  /-- The spans are filled and follow each other from the first byte on. -/
  tiles : Tiles 0 r.tokens r.final.offset
  /-- A token has the text of its span and the position of its start. -/
  placed : ∀ t ∈ r.tokens,
    t.raw.toList = slice source.toList t.start t.stop ∧ t.position = positionAt source t.start
  /-- Without a fault nothing is left. -/
  complete : r.failure = none → r.final.offset = bytes source.toList ∧ String.join (r.tokens.map (·.raw)) = source
  /-- A fault has the position of the place where the tokens before it end. -/
  fault : ∀ e, r.failure = some e → e.position = positionAt source r.final.offset
  /-- A walk gives the tokens, then the fault if there is one, and then nothing any more. -/
  answers : ∀ n, (Walk.start source).answer n = r.answers[n]?
  /-- After so many answers the cursor stands behind the tokens given. -/
  stands : ∀ n, ((Walk.start source).after n).cursor.offset = bytes (rawText (r.tokens.take n)) ∧
    ((Walk.start source).after n).cursor.position =
      positionAt source ((Walk.start source).after n).cursor.offset ∧
    ((Walk.start source).after n).cursor.delimiters = activeAfter .standard (r.tokens.take n)
  /-- A tag at fault leaves the cursor where it was. -/
  unmoved : ∀ n e, (Walk.start source).answer n = some (.error e) →
    ((Walk.start source).after (n + 1)).cursor = ((Walk.start source).after n).cursor

theorem join_raw (tokens : List LocatedToken) : String.join (tokens.map (·.raw)) = String.ofList (rawText tokens) := by
  induction tokens with
  | nil => rfl
  | cons t rest ih => simp [ih, String.join_cons]

/-- Where a reading from the beginning of a source has come to. -/
theorem Cursor.Reads.place {source : String} {tokens : List LocatedToken} {d : Cursor}
    (reads : Cursor.Reads { rest := source.toList } tokens d) :
    d.offset = bytes (rawText tokens) ∧ d.position = positionAt source d.offset := by
  have offset : d.offset = bytes (rawText tokens) := by simpa using reads.offset_eq
  refine ⟨offset, ?_⟩
  rw [reads.position_eq, Position.after_eq_behind, positionAt, offset]
  have whole : rawText tokens ++ d.rest = source.toList := reads.rawText_append_rest
  rw [← whole, takeBytes_append]

theorem tokenize_covers (source : String) : (tokenize source).Covers source := by
  have reads := tokenize_reads source
  have ends : (tokenize source).final.Ends (tokenize source).failure := (Cursor.run_spec _).2
  refine ⟨reads.tiles, ?_, ?_, ?_, ?_, ?_, ?_⟩
  · intro t member
    obtain ⟨before, behind, cut⟩ := List.append_of_mem member
    rw [cut] at reads
    obtain ⟨m, first, later⟩ := reads.split
    cases later with
    | @cons _ _ l _ left read rest =>
      have place := first.place
      have whole : rawText before ++ m.rest = source.toList := first.rawText_append_rest
      have here : l.raw ++ l.rest = m.rest := lexeme_append read
      refine ⟨?_, place.2⟩
      have span := slice_append (rawText before) l.raw l.rest
      rw [← whole, ← here]
      simpa [Cursor.locate, LocatedToken.stop, place.1] using span.symm
  · intro clean
    rw [clean] at ends
    have all : rawText (tokenize source).tokens = source.toList := by
      have whole := reads.rawText_append_rest
      rwa [show (tokenize source).final.rest = [] from ends, List.append_nil] at whole
    exact ⟨by rw [reads.place.1, all], by rw [join_raw, all, String.ofList_toList]⟩
  · intro e failed
    rw [failed] at ends
    rw [lexeme_error ends.2, reads.place.2]
  · exact fun n => (Walk.answer_eq _ n).1
  · intro n
    have walked : Cursor.Reads { rest := source.toList } _ ((Walk.start source).after n).cursor :=
      (Walk.answer_eq { rest := source.toList } n).2
    exact ⟨walked.place.1, walked.place.2, walked.delimiters_eq⟩
  · intro n e refused
    rw [Walk.after_succ]
    exact Walk.cursor_next_of_error refused

end Mustache

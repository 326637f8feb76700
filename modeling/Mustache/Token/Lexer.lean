import Mustache.Token

/-!
# Reading tokens

A cursor walks over a source. At each place the longest text, the line break or the tag that
begins there is read (`lexeme`); it takes at least one character, and what it takes and what it
leaves make up what was there (`lexeme_append`, `lexeme_raw_ne_nil`). The first fault ends the
walk and leaves the cursor before the faulty tag.
-/

namespace Mustache
open Text

/-- A token, the characters it was read from, and the characters after them. -/
structure Lexeme where
  token : Token
  raw : List Char
  rest : List Char

namespace Lexeme

/-! ## Texts and line breaks -/

def lineBreak? : List Char → Option Lexeme
  | '\n' :: rest => some ⟨.newline .lf, ['\n'], rest⟩
  | '\r' :: '\n' :: rest => some ⟨.newline .crlf, ['\r', '\n'], rest⟩
  | _ => none

/-- Whether a static text ends here: before a line break and before an opening marker. -/
def endsText (opening cs : List Char) : Bool := (lineBreak? cs).isSome || opening.isPrefixOf cs

/-- The characters before the first place where a static text ends, and those from there on. -/
def spanText (opening : List Char) : List Char → List Char × List Char
  | [] => ([], [])
  | c :: r =>
    if endsText opening (c :: r) then ([], c :: r)
    else (c :: (spanText opening r).1, (spanText opening r).2)

/-! ## Tags -/

/-- Every tag but a comment needs a name, and a name holds no blank. -/
def checkName (position : Position) (kind : TagKind) (name : List Char) : Except SyntaxError Unit :=
  if kind = .comment then .ok ()
  else if name.isEmpty then .error (.emptyName position kind)
  else if name.any isBlank then .error (.invalidName position (String.ofList name))
  else .ok ()

def changeEnd (d : Delimiters) : List Char := '=' :: d.closing.toList

/-- What ends an unescaped value in a brace of its own. -/
def tripleEnd (d : Delimiters) : List Char := '\x7d' :: d.closing.toList

/-- A change of the delimiters, from the character after its first equals sign. -/
def delimiterTag (d : Delimiters) (position : Position) (lead inner : List Char) : Except SyntaxError Lexeme :=
  match breakOn (changeEnd d) inner with
  | none => .error (.unclosedTag position (String.ofList (changeEnd d)))
  | some (markers, rest) =>
    match Delimiters.read? markers with
    | none => .error (.invalidDelimiters position (String.ofList (trim markers)))
    | some next => .ok ⟨.delimiters d next, d.opening.toList ++ lead ++ '=' :: markers ++ changeEnd d, rest⟩

/-- An unescaped value, from the character after its own opening brace. The whole text after the
opening marker decides how a missing end is reported. -/
def tripleTag (d : Delimiters) (position : Position) (body lead inner : List Char) : Except SyntaxError Lexeme :=
  match breakOn (tripleEnd d) inner with
  | none =>
    if (breakOn d.closing.toList body).isSome then .error (.unbalancedTriple position)
    else .error (.unclosedTag position (String.ofList (tripleEnd d)))
  | some (name, rest) => do
    checkName position .unescaped (trim name)
    .ok ⟨.tag (String.ofList (trim name)) .unescaped,
      d.opening.toList ++ lead ++ '\x7b' :: name ++ tripleEnd d, rest⟩

/-- The kind and the name that the trimmed inside of a tag stands for. -/
def readSigil : List Char → TagKind × List Char
  | [] => (.interpolation, [])
  | c :: r =>
    match TagKind.ofSigil? c with
    | some kind => (kind, trim r)
    | none => (.interpolation, c :: r)

/-- Any other tag, from the character after its opening marker. -/
def plainTag (d : Delimiters) (position : Position) (body : List Char) : Except SyntaxError Lexeme :=
  match breakOn d.closing.toList body with
  | none => .error (.unclosedTag position d.closing)
  | some (inner, rest) => do
    let (kind, name) := readSigil (trim inner)
    checkName position kind name
    .ok ⟨.tag (String.ofList name) kind, d.opening.toList ++ inner ++ d.closing.toList, rest⟩

/-- The tag whose opening marker stands before a text; its first significant character decides. -/
def tag (d : Delimiters) (position : Position) (body : List Char) : Except SyntaxError Lexeme :=
  let lead := body.takeWhile isBlank
  match body.dropWhile isBlank with
  | '=' :: inner => delimiterTag d position lead inner
  | '\x7b' :: inner => tripleTag d position body lead inner
  | _ => plainTag d position body

end Lexeme

/-- The token at the beginning of a text that is not empty. -/
def lexeme (d : Delimiters) (position : Position) (cs : List Char) : Except SyntaxError Lexeme :=
  match Lexeme.lineBreak? cs with
  | some l => .ok l
  | none =>
    match d.opening.toList.isPrefixOf? cs with
    | some body => Lexeme.tag d position body
    | none =>
      let (raw, rest) := Lexeme.spanText d.opening.toList cs
      .ok ⟨.text (String.ofList raw), raw, rest⟩

/-! ## What a lexeme takes -/

namespace Lexeme

theorem lineBreak?_append {cs : List Char} {l : Lexeme} (found : lineBreak? cs = some l) :
    l.raw ++ l.rest = cs ∧ l.raw ≠ [] := by
  unfold lineBreak? at found
  split at found <;> simp at found <;> subst found <;> simp

theorem spanText_append (opening cs : List Char) :
    (spanText opening cs).1 ++ (spanText opening cs).2 = cs := by
  induction cs with
  | nil => rfl
  | cons c r ih => rw [spanText]; split <;> simp [ih]

theorem delimiterTag_raw {d : Delimiters} {p : Position} {lead inner : List Char} {l : Lexeme}
    (read : delimiterTag d p lead inner = .ok l) :
    ∃ body, l.raw = d.opening.toList ++ body ∧ body ++ l.rest = lead ++ '=' :: inner := by
  unfold delimiterTag at read
  split at read
  · cases read
  · next markers rest found =>
    split at read <;> cases read
    exact ⟨lead ++ '=' :: markers ++ changeEnd d, by simp, by simp [breakOn_eq found]⟩

theorem tripleTag_raw {d : Delimiters} {p : Position} {body lead inner : List Char} {l : Lexeme}
    (read : tripleTag d p body lead inner = .ok l) :
    ∃ taken, l.raw = d.opening.toList ++ taken ∧ taken ++ l.rest = lead ++ '\x7b' :: inner := by
  unfold tripleTag at read
  split at read
  · split at read <;> cases read
  · next name rest found =>
    cases valid : checkName p .unescaped (trim name) with
    | error e => rw [valid] at read; cases read
    | ok _ =>
      rw [valid] at read; cases read
      exact ⟨lead ++ '\x7b' :: name ++ tripleEnd d, by simp, by simp [breakOn_eq found]⟩

theorem plainTag_raw {d : Delimiters} {p : Position} {body : List Char} {l : Lexeme}
    (read : plainTag d p body = .ok l) :
    ∃ taken, l.raw = d.opening.toList ++ taken ∧ taken ++ l.rest = body := by
  unfold plainTag at read
  split at read
  · cases read
  · next inner rest found =>
    cases valid : checkName p (readSigil (trim inner)).1 (readSigil (trim inner)).2 with
    | error e => simp only [valid] at read; cases read
    | ok _ =>
      simp only [valid] at read; cases read
      exact ⟨inner ++ d.closing.toList, by simp, by simp [breakOn_eq found]⟩

/-- A tag takes its opening marker and a part of what follows. -/
theorem tag_raw {d : Delimiters} {p : Position} {body : List Char} {l : Lexeme}
    (read : tag d p body = .ok l) : ∃ taken, l.raw = d.opening.toList ++ taken ∧ taken ++ l.rest = body := by
  have whole := List.takeWhile_append_dropWhile (p := isBlank) (l := body)
  unfold tag at read
  dsimp only at read
  split at read
  · next inner start => rw [← whole, start]; exact delimiterTag_raw read
  · next inner start => obtain ⟨taken, raw, rest⟩ := tripleTag_raw read; exact ⟨taken, raw, by rw [rest, ← start, whole]⟩
  · exact plainTag_raw read

end Lexeme

/-- What a lexeme takes and what it leaves make up what was there. -/
theorem lexeme_append {d : Delimiters} {p : Position} {cs : List Char} {l : Lexeme}
    (read : lexeme d p cs = .ok l) : l.raw ++ l.rest = cs := by
  unfold lexeme at read
  split at read
  · next found => cases read; exact (Lexeme.lineBreak?_append found).1
  · split at read
    · next body found =>
      obtain ⟨taken, raw, rest⟩ := Lexeme.tag_raw read
      rw [raw, List.append_assoc, rest, append_of_isPrefixOf? found]
    · cases read; exact Lexeme.spanText_append _ _

theorem isPrefixOf?_isSome (pattern cs : List Char) : (pattern.isPrefixOf? cs).isSome = pattern.isPrefixOf cs := by
  induction pattern generalizing cs with
  | nil => rfl
  | cons p ps ih =>
    cases cs with
    | nil => rfl
    | cons c r => by_cases same : p = c <;> simp [isPrefixOf?_cons, List.isPrefixOf, same, ih]

/-- A lexeme takes at least one character. -/
theorem lexeme_raw_ne_nil {d : Delimiters} {p : Position} {cs : List Char} {l : Lexeme} (some_left : cs ≠ [])
    (read : lexeme d p cs = .ok l) : l.raw ≠ [] := by
  unfold lexeme at read
  split at read
  · next found => cases read; exact (Lexeme.lineBreak?_append found).2
  · next no_break =>
    split at read
    · obtain ⟨taken, raw, _⟩ := Lexeme.tag_raw read
      simp [raw, d.opening_valid.1]
    · next no_tag =>
      cases read
      cases cs with
      | nil => exact absurd rfl some_left
      | cons c r =>
        have goes_on : Lexeme.endsText d.opening.toList (c :: r) = false := by
          simp [Lexeme.endsText, no_break, ← isPrefixOf?_isSome, no_tag]
        simp [Lexeme.spanText, goes_on]

/-! ## The walk -/

/-- A place in a source: what is left of it, where that begins, and the delimiters in force. -/
structure Cursor where
  rest : List Char
  offset : Nat := 0
  position : Position := {}
  delimiters : Delimiters := .standard

namespace Cursor

def after (c : Cursor) (l : Lexeme) : Cursor where
  rest := l.rest
  offset := c.offset + bytes l.raw
  position := c.position.after l.raw
  delimiters := match l.token with
    | .delimiters _ next => next
    | _ => c.delimiters

def locate (c : Cursor) (l : Lexeme) : LocatedToken :=
  { token := l.token, position := c.position, start := c.offset, raw := String.ofList l.raw }

end Cursor

/-- The tokens before the end of a source or before its first fault, and where the walk ends. -/
structure Tokenization where
  tokens : List LocatedToken
  failure : Option SyntaxError
  final : Cursor

/-- The walk from a place to the end of the source. -/
def Cursor.run (c : Cursor) : Tokenization :=
  if _left : c.rest = [] then ⟨[], none, c⟩
  else
    match _read : lexeme c.delimiters c.position c.rest with
    | .error e => ⟨[], some e, c⟩
    | .ok l =>
      let later := (c.after l).run
      { later with tokens := c.locate l :: later.tokens }
termination_by c.rest.length
decreasing_by
  have whole := congrArg List.length (lexeme_append _read)
  have taken := List.length_pos_iff.2 (lexeme_raw_ne_nil _left _read)
  simp only [List.length_append] at whole
  simp only [Cursor.after]
  omega

def tokenize (source : String) : Tokenization := Cursor.run { rest := source.toList }

end Mustache

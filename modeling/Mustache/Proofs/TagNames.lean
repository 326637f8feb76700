import Mathlib
import Mustache.Proofs.Recognition

/-!
# Names of tags

The name of a tag is trimmed, and is a single word unless the tag is a comment. It holds no closing marker of the
delimiters in force, for a tag ends with the first of them; only a value in a brace of its own goes on to the first
closing marker behind a brace (`tag_names`), be it the one of a later tag (`brace_takes_two_tags`).
-/

namespace Mustache
open Text

/-! ## Trimming -/

namespace Text

theorem trim_isInfix (cs : List Char) : trim cs <:+: cs :=
  (List.rdropWhile_prefix isBlank (trimStart cs)).isInfix.trans (List.dropWhile_suffix isBlank).isInfix

theorem trim_trim (cs : List Char) : trim (trim cs) = trim cs := by
  have part : trim cs <+: trimStart cs := List.rdropWhile_prefix isBlank (trimStart cs)
  have starts : trimStart (trim cs) = trim cs := by
    refine List.dropWhile_eq_self_iff.mpr fun filled => ?_
    rw [part.getElem filled]
    exact List.dropWhile_get_zero_not isBlank cs (filled.trans_le part.length_le)
  rw [trim, starts]
  exact List.rdropWhile_idempotent isBlank (trimStart cs)

/-- A word of a text without its leading blanks. -/
theorem infix_trimStart {word cs : List Char} (filled : word ≠ []) (whole : ∀ c ∈ word, isBlank c = false)
    (inside : word <:+: cs) : word <:+: trimStart cs := by
  induction cs with
  | nil => exact inside
  | cons c r ih =>
    rw [trimStart, List.dropWhile_cons]
    split
    · next blank =>
      rcases List.infix_cons_iff.mp inside with here | later
      · obtain ⟨x, others, rfl⟩ := List.exists_cons_of_ne_nil filled
        rw [(List.cons_prefix_cons.mp here).1] at whole
        simp [blank] at whole
      · exact ih later
    · exact inside

theorem infix_trim {word cs : List Char} (filled : word ≠ []) (whole : ∀ c ∈ word, isBlank c = false)
    (inside : word <:+: cs) : word <:+: trim cs := by
  have back := infix_trimStart (by simpa using filled) (by simpa using whole)
    (List.reverse_infix.mpr (infix_trimStart filled whole inside))
  rw [← List.reverse_infix]
  simpa [trim, trimEnd, trimStart] using back

end Text

/-! ## Names -/

namespace Lexeme

theorem readSigil_isInfix (cs : List Char) : (readSigil cs).2 <:+: cs := by
  unfold readSigil
  split
  · exact List.infix_rfl
  · next c r =>
    split
    · exact (trim_isInfix r).trans (List.suffix_cons c r).isInfix
    · exact List.infix_rfl

theorem trim_readSigil (cs : List Char) : trim (readSigil (trim cs)).2 = (readSigil (trim cs)).2 := by
  unfold readSigil
  split
  · rfl
  · next c r first =>
    split
    · exact trim_trim r
    · rw [← first, trim_trim]

end Lexeme

/-- What stands behind the opening marker of an unescaped value in a brace of its own. -/
def Braced (d : Delimiters) (cs inner : List Char) : Prop :=
  ∃ lead, (∀ c ∈ lead, isBlank c = true) ∧ cs = d.opening.toList ++ (lead ++ '\x7b' :: inner)

/-- A tag with a closing marker inside: a value in a brace of its own that goes on to the first closing marker
behind a brace. -/
def Swallows (d : Delimiters) (kind : TagKind) (raw : List Char) : Prop :=
  kind = .unescaped ∧ ∃ inner, Braced d raw (inner ++ '\x7d' :: d.closing.toList) ∧
    ¬ '\x7d' :: d.closing.toList <:+: inner ∧ d.closing.toList <:+: inner

/-- What the name of a tag is, between the delimiters `d`. -/
structure NameOf (d : Delimiters) (name : String) (kind : TagKind) (raw : List Char) : Prop where
  trimmed : trim name.toList = name.toList
  valid : Lexeme.ValidName kind name.toList
  marked_iff : d.closing.toList <:+: name.toList ↔ Swallows d kind raw

section

variable {d : Delimiters} {body a b : List Char} {l : Lexeme} {name : String} {kind : TagKind}

theorem braced_iff : Braced d (d.opening.toList ++ body) a ↔ body.dropWhile isBlank = '\x7b' :: a := by
  constructor
  · rintro ⟨lead, blank, same⟩
    have brace : isBlank '\x7b' = false := by decide
    rw [List.append_cancel_left same, List.dropWhile_append_of_pos blank]
    simp [brace]
  · intro start
    have whole := List.takeWhile_append_dropWhile (p := isBlank) (l := body)
    refine ⟨body.takeWhile isBlank, fun _ => List.mem_takeWhile_imp, ?_⟩
    rw [← start, whole]

theorem Braced.inner_eq {cs : List Char} (first : Braced d cs a) (second : Braced d cs b) : a = b := by
  obtain ⟨lead, _, rfl⟩ := id first
  exact (List.cons.inj ((braced_iff.mp first).symm.trans (braced_iff.mp second))).2

theorem nameOf_of_ofTag (tag : Lexeme.OfTag d body l) (named : l.token = .tag name kind) :
    NameOf d name kind l.raw := by
  have marker := d.closing_valid.1
  have whole : ∀ c ∈ d.closing.toList, isBlank c = false := fun c member => (d.closing_valid.2 c member).1
  cases tag with
  | change blank cut pair => cases named
  | @triple lead inner body rest blank cut valid =>
    obtain ⟨rfl, rfl⟩ := Token.tag.inj named
    have here : Braced d (d.opening.toList ++ lead ++ '\x7b' :: body ++ Lexeme.tripleEnd d)
        (body ++ '\x7d' :: d.closing.toList) := ⟨lead, blank, by simp [Lexeme.tripleEnd]⟩
    refine ⟨by simpa using trim_trim body, by simpa using valid, ?_⟩
    rw [String.toList_ofList]
    constructor
    · intro inside
      have first := not_infix_of_breakOn (List.cons_ne_nil _ _) cut
      exact ⟨rfl, body, here, first, inside.trans (trim_isInfix body)⟩
    · rintro ⟨_, inner, braced, _, inside⟩
      rw [List.append_cancel_right (braced.inner_eq here)] at inside
      exact infix_trim marker whole inside
  | @plain body inner rest cut valid =>
    obtain ⟨rfl, rfl⟩ := Token.tag.inj named
    -- The first closing marker ends the tag.
    have outside := not_infix_of_breakOn marker cut
    refine ⟨by simpa using Lexeme.trim_readSigil inner, by simpa using valid, ?_⟩
    rw [String.toList_ofList]
    constructor
    · intro inside
      exact absurd (inside.trans ((Lexeme.readSigil_isInfix _).trans (trim_isInfix inner))) outside
    · rintro ⟨_, body, ⟨lead, _, same⟩, _, inside⟩
      have whole : inner ++ d.closing.toList = lead ++ '\x7b' :: (body ++ ['\x7d']) ++ d.closing.toList := by
        simpa using same
      refine absurd (inside.trans ⟨lead ++ ['\x7b'], ['\x7d'], ?_⟩) outside
      simp [List.append_cancel_right whole]

theorem nameOf_of_lexeme {p : Position} {cs : List Char} (read : lexeme d p cs = .ok l)
    (named : l.token = .tag name kind) : NameOf d name kind l.raw := by
  unfold lexeme at read
  split at read
  · next found =>
    cases read
    unfold Lexeme.lineBreak? at found
    split at found <;> cases found <;> cases named
  · split at read
    · exact nameOf_of_ofTag (Lexeme.ofTag_of_tag read) named
    · cases read
      cases named

end

/-! ## Braces at fault -/

namespace Lexeme

variable {d : Delimiters} {p q : Position} {body lead inner : List Char}

theorem checkName_ne_unbalanced {kind : TagKind} {name : List Char} :
    checkName p kind name ≠ .error (.unbalancedTriple q) := by
  unfold checkName
  split
  · nofun
  · split
    · nofun
    · split <;> nofun

theorem tripleTag_unbalanced_iff : tripleTag d p body lead inner = .error (.unbalancedTriple q) ↔
    q = p ∧ ¬ '\x7d' :: d.closing.toList <:+: inner ∧ d.closing.toList <:+: body := by
  have ends : tripleEnd d = '\x7d' :: d.closing.toList := rfl
  unfold tripleTag
  split
  · next none =>
    rw [breakOn_eq_none_iff, ends] at none
    split
    · next closing =>
      rw [Option.isSome_iff_ne_none, ne_eq, breakOn_eq_none_iff, not_not] at closing
      simp [none, closing, eq_comm]
    · next closing =>
      rw [Option.isSome_iff_ne_none, ne_eq, breakOn_eq_none_iff, not_not] at closing
      simp [closing]
  · next name rest cut =>
    have closed : '\x7d' :: d.closing.toList <:+: inner := by
      rw [breakOn_eq cut, ends]
      exact ⟨name, rest, rfl⟩
    cases valid : checkName p .unescaped (trim name) with
    | ok _ => simp [closed, bind, Except.bind]
    | error e =>
      have other : e ≠ .unbalancedTriple q := by
        rintro rfl
        exact checkName_ne_unbalanced valid
      simp [closed, other, bind, Except.bind]

theorem delimiterTag_ne_unbalanced : delimiterTag d p lead inner ≠ .error (.unbalancedTriple q) := by
  unfold delimiterTag
  split
  · nofun
  · split <;> nofun

theorem plainTag_ne_unbalanced : plainTag d p body ≠ .error (.unbalancedTriple q) := by
  unfold plainTag
  split
  · nofun
  · next inner rest cut =>
    cases valid : checkName p (readSigil (trim inner)).1 (readSigil (trim inner)).2 with
    | ok _ => simp [valid, bind, Except.bind]
    | error e =>
      have other : e ≠ .unbalancedTriple q := by
        rintro rfl
        exact checkName_ne_unbalanced valid
      simp [valid, other, bind, Except.bind]

end Lexeme

/-- A value in a brace of its own without an end, though not without a closing marker. -/
def Unbalanced (d : Delimiters) (cs : List Char) : Prop :=
  ∃ inner, Braced d cs inner ∧ ¬ '\x7d' :: d.closing.toList <:+: inner ∧
    d.closing.toList <:+: cs.drop d.opening.toList.length

/-- A fault in the braces is the fault of a tag that has a closing marker, but none behind a brace. -/
theorem lexeme_unbalanced_iff {d : Delimiters} {p q : Position} {cs : List Char} :
    lexeme d p cs = .error (.unbalancedTriple q) ↔ q = p ∧ Unbalanced d cs := by
  cases marked : d.opening.toList.isPrefixOf? cs with
  | none =>
    have not_unbalanced : ¬ Unbalanced d cs := by
      rintro ⟨inner, ⟨lead, _, rfl⟩, _⟩
      rw [isPrefixOf?_append] at marked
      cases marked
    simp only [not_unbalanced, and_false, iff_false]
    unfold lexeme
    rw [marked]
    split <;> nofun
  | some body =>
    obtain rfl := append_of_isPrefixOf? marked
    have unbalanced_iff : Unbalanced d (d.opening.toList ++ body) ↔
        ∃ inner, body.dropWhile isBlank = '\x7b' :: inner ∧ ¬ '\x7d' :: d.closing.toList <:+: inner ∧
          d.closing.toList <:+: body := by
      simp [Unbalanced, braced_iff]
    rw [lexeme, lineBreak?_opening, marked, unbalanced_iff]
    dsimp only
    unfold Lexeme.tag
    dsimp only
    split
    · next inner start => simp [start, Lexeme.delimiterTag_ne_unbalanced]
    · next inner start => simp [start, Lexeme.tripleTag_unbalanced_iff]
    · next _ no_triple =>
      refine iff_of_false Lexeme.plainTag_ne_unbalanced ?_
      rintro ⟨_, inner, start, _⟩
      exact no_triple inner start

/-- The name of every tag, and the sources that end at a fault in the braces. -/
theorem tag_names (source : String) :
    (∀ before t after name kind, (tokenize source).tokens = before ++ t :: after → t.token = .tag name kind →
      NameOf (activeAfter .standard before) name kind t.raw.toList) ∧
    ∀ p, (tokenize source).failure = some (.unbalancedTriple p) ↔
      p = (tokenize source).final.position ∧
        Unbalanced (tokenize source).final.delimiters (tokenize source).final.rest := by
  have reads := tokenize_reads source
  have ends : (tokenize source).final.Ends (tokenize source).failure := (Cursor.run_spec _).2
  refine ⟨fun before t after name kind cut named => ?_, fun p => ?_⟩
  · rw [cut] at reads
    obtain ⟨m, l, _, active, read, rfl, _⟩ := reads.lexeme_at
    rw [← active]
    simpa [Cursor.locate] using nameOf_of_lexeme read named
  · rw [← lexeme_unbalanced_iff (p := (tokenize source).final.position)]
    cases failed : (tokenize source).failure with
    | some e =>
      rw [failed] at ends
      simp [ends.2]
    | none =>
      rw [failed] at ends
      have done : (tokenize source).final.rest = [] := ends
      refine iff_of_false (by simp) fun refused => ?_
      obtain ⟨inner, ⟨lead, _, same⟩, _⟩ := (lexeme_unbalanced_iff.mp refused).2
      rw [done] at same
      simp at same

/-- An unescaped value in a brace of its own, between delimiters that are not the standard ones. -/
def bracketSource : String := "\x7b\x7b=[ ]=\x7d\x7d[\x7b a.b \x7d]"

def bracketChange : LocatedToken :=
  ⟨.delimiters .standard { opening := "[", closing := "]" }, {}, 0, "\x7b\x7b=[ ]=\x7d\x7d"⟩

def bracketValue : LocatedToken := ⟨.tag "a.b" .unescaped, ⟨1, 10⟩, 9, "[\x7b a.b \x7d]"⟩

theorem bracket_named :
    ((tokenize bracketSource).tokens = [bracketChange] ++ bracketValue :: [] ∧
      bracketValue.token = .tag "a.b" .unescaped) ∧
      NameOf (activeAfter .standard [bracketChange]) "a.b" .unescaped bracketValue.raw.toList := by
  have cut : (tokenize bracketSource).tokens = [bracketChange] ++ bracketValue :: [] := by cbv
  exact ⟨⟨cut, rfl⟩, (tag_names bracketSource).1 _ _ _ _ _ cut rfl⟩

/-- A value whose second closing brace is missing, and another one. -/
def bracesSource : String := "\x7b\x7b\x7bx\x7d\x7d\x7b\x7b\x7by\x7d\x7d\x7d"

theorem brace_takes_two_tags :
    (tokenize bracesSource).failure = none ∧
      (tokenize bracesSource).tokens = [⟨.tag "x\x7d\x7d\x7b\x7b\x7by" .unescaped, {}, 0, bracesSource⟩] ∧
      Delimiters.standard.closing.toList <:+: "x\x7d\x7d\x7b\x7b\x7by".toList :=
  ⟨by cbv, by cbv, ['x'], ['\x7b', '\x7b', '\x7b', 'y'], by decide⟩

end Mustache

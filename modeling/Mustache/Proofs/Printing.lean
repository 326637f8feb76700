import Mustache.Proofs.Relocation
import Mustache.Proofs.Rows

/-!
# Templates printed with other delimiters

The parts of a template are printed with the standard delimiters, or with others behind a first line that sets
them. Where the first marker that is found is the printed one, both printings say the same
(`delimiters_mean_nothing`): what is read from the parts, and whether a fault ends the reading, is settled
without the delimiters (`said_of_parts`).
-/

namespace Mustache
open Text

/-! ## Parts -/

/-- A part of a template, whatever delimiters it is printed with. -/
inductive Part where
  | newline (lineBreak : LineBreak)
  | text (content : String)
  | tag (body : String)
  /-- A tag with a brace of its own around its body. -/
  | triple (body : String)

namespace Part

/-- The body of a tag is not blank, and begins neither like a change of the delimiters nor like a tag with a brace
of its own. -/
def Valid : Part → Prop
  | .tag body => (∃ c ∈ body.toList, isBlank c = false) ∧ ∀ c ∈ (trimStart body.toList).head?, c ≠ '=' ∧ c ≠ '\x7b'
  | _ => True

def print (d : Delimiters) : Part → List Char
  | .newline lineBreak => lineBreak.text.toList
  | .text content => content.toList
  | .tag body => d.opening.toList ++ (body.toList ++ d.closing.toList)
  | .triple body => d.opening.toList ++ '\x7b' :: (body.toList ++ Lexeme.tripleEnd d)

end Part

def printed (d : Delimiters) (parts : List Part) : List Char := parts.flatMap (·.print d)

/-- What is printed before the next tag, if there is one. -/
def beforeTag : List Part → Option (List Char)
  | [] => none
  | .newline lineBreak :: rest => (beforeTag rest).map (lineBreak.text.toList ++ ·)
  | .text content :: rest => (beforeTag rest).map (content.toList ++ ·)
  | .tag _ :: _ => some []
  | .triple _ :: _ => some []

/-- The first marker that is found from a part on is the printed one: from a text the opening marker of the next
tag, or none; from the body of a tag what closes it. -/
def Part.Found (d : Delimiters) (rest : List Part) : Part → Prop
  | .newline _ => True
  | .text content =>
    (breakOn d.opening.toList (content.toList ++ printed d rest)).map (·.1) = beforeTag (.text content :: rest)
  | .tag body =>
    breakOn d.closing.toList (body.toList ++ d.closing.toList ++ printed d rest) = some (body.toList, printed d rest)
  | .triple body =>
    breakOn (Lexeme.tripleEnd d) (body.toList ++ Lexeme.tripleEnd d ++ printed d rest) =
      some (body.toList, printed d rest)

def WellPrinted (d : Delimiters) : List Part → Prop
  | [] => True
  | part :: rest => part.Found d rest ∧ WellPrinted d rest

instance (d : Delimiters) (rest : List Part) : (part : Part) → Decidable (part.Found d rest)
  | .newline _ => isTrue trivial
  | .text _ | .tag _ | .triple _ => inferInstanceAs (Decidable (_ = _))

instance instDecidableWellPrinted (d : Delimiters) : ∀ parts : List Part, Decidable (WellPrinted d parts)
  | [] => isTrue trivial
  | _ :: rest => @instDecidableAnd _ _ inferInstance (instDecidableWellPrinted d rest)

/-! ## Runs of characters -/

/-- The characters up to the first line break. -/
def spanLine (cs : List Char) : List Char × List Char := Lexeme.spanText ['\n'] cs

/-- What is read at the beginning of characters among which no marker begins. -/
def runLexeme (cs : List Char) : Lexeme :=
  match Lexeme.lineBreak? cs with
  | some l => l
  | none => ⟨.text (String.ofList (spanLine cs).1), (spanLine cs).1, (spanLine cs).2⟩

/-- At none of some characters an opening marker begins, with other characters behind them. -/
def Free (d : Delimiters) (cs behind : List Char) : Prop :=
  ∀ a b, cs = a ++ b → b ≠ [] → ¬ d.opening.toList <+: b ++ behind

namespace Free

variable {d : Delimiters} {cs content behind : List Char}

theorem nil : Free d [] behind := by
  intro a b cut filled
  exact absurd (List.append_eq_nil_iff.mp cut.symm).2 filled

theorem tail {a b : List Char} (free : Free d (a ++ b) behind) : Free d b behind := by
  intro a' b' cut filled
  exact free (a ++ a') b' (by rw [cut, List.append_assoc]) filled

theorem append (first : Free d cs (content ++ behind)) (second : Free d content behind) :
    Free d (cs ++ content) behind := by
  intro a b cut filled
  rcases List.append_eq_append_iff.mp cut with ⟨x, rfl, rest⟩ | ⟨x, rest, rfl⟩
  · exact second x b rest filled
  · by_cases empty : x = []
    · subst empty
      exact second [] content rfl (by simpa using filled)
    · rw [List.append_assoc]
      exact first a x rest empty

/-- No marker begins with a blank. -/
theorem of_blank (blank : ∀ c ∈ cs, isBlank c = true) : Free d cs behind := by
  intro a b cut filled marker
  obtain ⟨c, b, rfl⟩ := List.exists_cons_of_ne_nil filled
  obtain ⟨mark, others, opening⟩ := List.exists_cons_of_ne_nil d.opening_valid.1
  have significant := (d.opening_valid.2 mark (by simp [opening])).1
  rw [opening, List.cons_append, List.cons_prefix_cons] at marker
  rw [marker.1, blank c (by simp [cut])] at significant
  cases significant

end Free

theorem endsText_feed (cs : List Char) : Lexeme.endsText ['\n'] cs = (Lexeme.lineBreak? cs).isSome := by
  unfold Lexeme.endsText Lexeme.lineBreak?
  split
  · rfl
  · rfl
  · next no_feed _ =>
    cases cs with
    | nil => rfl
    | cons c r =>
      have other : c ≠ '\n' := fun feed => no_feed r (by rw [feed])
      simp [List.isPrefixOf, Ne.symm other]

section

variable {d : Delimiters} {cs behind : List Char}

/-- What comes behind some characters as a part of a template: nothing, or a tag. -/
def Parted (d : Delimiters) (behind : List Char) : Prop := behind = [] ∨ d.opening.toList <+: behind

theorem Parted.head?_ne (parted : Parted d behind) : behind.head? ≠ some '\n' := by
  rcases parted with rfl | ⟨rest, rfl⟩
  · simp
  · obtain ⟨mark, others, opening⟩ := List.exists_cons_of_ne_nil d.opening_valid.1
    have significant := (d.opening_valid.2 mark (by simp [opening])).1
    rw [opening, List.cons_append, List.head?_cons]
    intro feed
    rw [Option.some.inj feed] at significant
    exact absurd significant (by decide)

theorem Parted.spanText (parted : Parted d behind) :
    Lexeme.spanText d.opening.toList behind = ([], behind) := by
  rcases parted with rfl | marker
  · rfl
  · exact spanText_of_ends (endsText_of_marker marker)

/-- Among some characters only line breaks end a text. -/
theorem endsText_free {c : Char} (free : Free d (c :: cs) behind) (apart : behind.head? ≠ some '\n') :
    Lexeme.endsText d.opening.toList (c :: cs ++ behind) = (Lexeme.lineBreak? (c :: cs)).isSome := by
  have no_marker : d.opening.toList.isPrefixOf (c :: cs ++ behind) = false := by
    rw [Bool.eq_false_iff, Ne, List.isPrefixOf_iff_prefix]
    exact free [] (c :: cs) rfl (by simp)
  rw [Lexeme.endsText, no_marker, Bool.or_false]
  cases cs with
  | cons b rest => exact lineBreak?_isSome_append c b rest behind
  | nil =>
    cases behind with
    | nil => rfl
    | cons b rest =>
      have other : b ≠ '\n' := by simpa using apart
      unfold Lexeme.lineBreak?
      split <;> simp_all

theorem spanText_free (free : Free d cs behind) (parted : Parted d behind) :
    Lexeme.spanText d.opening.toList (cs ++ behind) = ((spanLine cs).1, (spanLine cs).2 ++ behind) := by
  induction cs with
  | nil => exact parted.spanText
  | cons c rest ih =>
    have ends := endsText_free free parted.head?_ne
    have later := ih (Free.tail (a := [c]) free)
    rw [spanLine, Lexeme.spanText, endsText_feed]
    rw [List.cons_append] at ends ⊢
    rw [Lexeme.spanText, ends]
    by_cases break_ : (Lexeme.lineBreak? (c :: rest)).isSome = true
    · rw [if_pos break_, if_pos break_]
      rfl
    · rw [if_neg break_, if_neg break_, later]
      rfl

theorem runLexeme_append (filled : cs ≠ []) :
    (runLexeme cs).raw ++ (runLexeme cs).rest = cs ∧ (runLexeme cs).raw ≠ [] := by
  unfold runLexeme
  cases found : Lexeme.lineBreak? cs with
  | some l => exact Lexeme.lineBreak?_append found
  | none =>
    refine ⟨Lexeme.spanText_append _ cs, ?_⟩
    obtain ⟨c, rest, rfl⟩ := List.exists_cons_of_ne_nil filled
    have goes_on : Lexeme.endsText ['\n'] (c :: rest) = false := by rw [endsText_feed, found]; rfl
    simp [spanLine, Lexeme.spanText, goes_on]

theorem runLexeme_no_change (cs : List Char) (previous next : Delimiters) :
    (runLexeme cs).token ≠ .delimiters previous next := by
  unfold runLexeme
  cases found : Lexeme.lineBreak? cs with
  | none => simp
  | some l =>
    unfold Lexeme.lineBreak? at found
    split at found <;> cases found <;> simp

/-- The same is read whatever the opening marker is that does not begin among the characters. -/
theorem lexeme_run (filled : cs ≠ []) (free : Free d cs behind) (parted : Parted d behind) (p : Position) :
    lexeme d p (cs ++ behind) = .ok ((runLexeme cs).before ((runLexeme cs).rest ++ behind)) := by
  obtain ⟨c, rest, rfl⟩ := List.exists_cons_of_ne_nil filled
  unfold runLexeme
  cases found : Lexeme.lineBreak? (c :: rest) with
  | some l => rw [lexeme, lineBreak?_append found]
  | none =>
    have ends := endsText_free free parted.head?_ne
    rw [found] at ends
    rw [lexeme_text d p ends, spanText_free free parted]
    rfl

end

/-- What is read from characters between tags does not depend on the delimiters. -/
theorem said_of_run (cs : List Char) : ∃ said : List Token, ∀ (c : Cursor) (behind : List Char),
    Free c.delimiters cs behind → Parted c.delimiters behind → c.rest = cs ++ behind →
    ∃ tokens m, Cursor.Reads c tokens m ∧ tokens.map (·.token) = said ∧ m.rest = behind ∧
      m.delimiters = c.delimiters := by
  -- A token takes at least one character, so the induction is on how many are left.
  induction size : cs.length using Nat.strong_induction_on generalizing cs with
  | _ n ih =>
    by_cases filled : cs = []
    · subst filled
      exact ⟨[], fun c behind _ _ whole => ⟨[], c, .nil, rfl, whole, rfl⟩⟩
    · obtain ⟨cut, taken⟩ := runLexeme_append filled
      have shorter : (runLexeme cs).rest.length < n := by
        have lengths := congrArg List.length cut
        have positive := List.length_pos_iff.mpr taken
        rw [List.length_append, size] at lengths
        omega
      obtain ⟨said, later⟩ := ih _ shorter (runLexeme cs).rest rfl
      refine ⟨(runLexeme cs).token :: said, fun c behind free parted whole => ?_⟩
      have read := lexeme_run filled free parted c.position
      rw [← whole] at read
      have left : c.rest ≠ [] := by simp [whole, filled]
      have same : (c.after ((runLexeme cs).before ((runLexeme cs).rest ++ behind))).delimiters = c.delimiters := by
        have no_change := runLexeme_no_change cs
        unfold Cursor.after Lexeme.before
        dsimp only
        split
        · next previous next change => exact absurd change (no_change previous next)
        · rfl
      have free_later : Free c.delimiters (runLexeme cs).rest behind := by
        rw [← cut] at free
        exact free.tail
      rw [← same] at free_later parted
      obtain ⟨tokens, m, reads, tokens_said, rest, active⟩ := later _ behind free_later parted rfl
      exact ⟨_, m, .cons left read reads, by rw [List.map_cons, tokens_said]; rfl, rest, active.trans same⟩

/-! ## Tags -/

namespace Lexeme

variable {d : Delimiters} {p : Position} {kind : TagKind} {name body rest : List Char}

theorem checkName_of_not (invalid : ¬ ValidName kind name) (p : Position) : ∃ e, checkName p kind name = .error e := by
  cases checked : checkName p kind name with
  | ok _ => exact absurd (checkName_ok_iff.mp checked) invalid
  | error e => exact ⟨e, rfl⟩

theorem tag_plain {c : Char} (first : (trimStart body).head? = some c) (change : c ≠ '=') (triple : c ≠ '\x7b') :
    tag d p body = plainTag d p body := by
  obtain ⟨r, first⟩ := List.head?_eq_some_iff.mp first
  rw [trimStart] at first
  unfold tag
  dsimp only
  rw [first]
  split <;> simp_all

/-- A tag whose closing marker is found is read if its name is valid. -/
theorem plainTag_of_found (found : breakOn d.closing.toList body = some (name, rest)) :
    (ValidName (readSigil (trim name)).1 (readSigil (trim name)).2 → ∃ raw, plainTag d p body =
      .ok ⟨.tag (String.ofList (readSigil (trim name)).2) (readSigil (trim name)).1, raw, rest⟩) ∧
    (¬ ValidName (readSigil (trim name)).1 (readSigil (trim name)).2 → ∃ e, plainTag d p body = .error e) := by
  constructor
  · intro valid
    have checked : checkName p _ _ = .ok () := checkName_ok_iff.mpr valid
    exact ⟨_, by simp only [plainTag, found, checked]; rfl⟩
  · intro invalid
    obtain ⟨e, checked⟩ := checkName_of_not invalid p
    exact ⟨e, by simp only [plainTag, found, checked]; rfl⟩

theorem tripleTag_of_found {lead whole : List Char} (found : breakOn (tripleEnd d) body = some (name, rest)) :
    (ValidName .unescaped (trim name) → ∃ raw, tripleTag d p whole lead body =
      .ok ⟨.tag (String.ofList (trim name)) .unescaped, raw, rest⟩) ∧
    (¬ ValidName .unescaped (trim name) → ∃ e, tripleTag d p whole lead body = .error e) := by
  constructor
  · intro valid
    have checked : checkName p .unescaped (trim name) = .ok () := checkName_ok_iff.mpr valid
    exact ⟨_, by simp only [tripleTag, found, checked]; rfl⟩
  · intro invalid
    obtain ⟨e, checked⟩ := checkName_of_not invalid p
    exact ⟨e, by simp only [tripleTag, found, checked]; rfl⟩

end Lexeme

/-- What stands behind an opening marker is read as a tag. -/
theorem lexeme_opening (d : Delimiters) (p : Position) (body : List Char) :
    lexeme d p (d.opening.toList ++ body) = Lexeme.tag d p body := by
  rw [lexeme, lineBreak?_opening, isPrefixOf?_append]

/-- How a tag is read at a place: as a tag with a name, or not at all. -/
def ReadsAs (d : Delimiters) (cs behind : List Char) : Option (String × TagKind) → Prop
  | some (name, kind) => ∀ p, ∃ raw, lexeme d p cs = .ok ⟨.tag name kind, raw, behind⟩
  | none => ∀ p, ∃ e, lexeme d p cs = .error e

/-- A tag is read as the same between all delimiters of which it is found to be the inside. -/
theorem said_of_tag {body : String} (valid : (Part.tag body).Valid) : ∃ outcome, ∀ d rest,
    (Part.tag body).Found d rest → ReadsAs d ((Part.tag body).print d ++ printed d rest) (printed d rest) outcome := by
  obtain ⟨⟨x, member, significant⟩, first⟩ := valid
  have more : trimStart body.toList ≠ [] := by
    intro none
    have all := List.dropWhile_eq_nil_iff.mp none x member
    rw [significant] at all
    cases all
  obtain ⟨c, others, start⟩ := List.exists_cons_of_ne_nil more
  obtain ⟨change, triple⟩ := first c (by rw [start]; rfl)
  have as_plain (d : Delimiters) (rest : List Part) (p : Position) :
      lexeme d p ((Part.tag body).print d ++ printed d rest) =
        Lexeme.plainTag d p (body.toList ++ d.closing.toList ++ printed d rest) := by
    have head : (trimStart (body.toList ++ d.closing.toList ++ printed d rest)).head? = some c := by
      rw [trimStart] at start
      rw [trimStart, List.append_assoc, List.dropWhile_append, start]
      rfl
    rw [Part.print, List.append_assoc, lexeme_opening, Lexeme.tag_plain head change triple]
  by_cases named : Lexeme.ValidName (Lexeme.readSigil (trim body.toList)).1 (Lexeme.readSigil (trim body.toList)).2
  · refine ⟨some (String.ofList (Lexeme.readSigil (trim body.toList)).2, (Lexeme.readSigil (trim body.toList)).1), ?_⟩
    intro d rest found p
    rw [as_plain]
    exact (Lexeme.plainTag_of_found found).1 named
  · refine ⟨none, ?_⟩
    intro d rest found p
    rw [as_plain]
    exact (Lexeme.plainTag_of_found found).2 named

theorem said_of_triple (body : String) : ∃ outcome, ∀ d rest, (Part.triple body).Found d rest →
    ReadsAs d ((Part.triple body).print d ++ printed d rest) (printed d rest) outcome := by
  have as_triple (d : Delimiters) (rest : List Part) (p : Position) :
      lexeme d p ((Part.triple body).print d ++ printed d rest) =
        Lexeme.tripleTag d p ('\x7b' :: (body.toList ++ Lexeme.tripleEnd d ++ printed d rest)) []
          (body.toList ++ Lexeme.tripleEnd d ++ printed d rest) := by
    have brace : isBlank '\x7b' = false := by decide
    rw [Part.print, List.append_assoc, List.cons_append, lexeme_opening, Lexeme.tag]
    simp only [List.takeWhile_cons, List.dropWhile_cons, brace, Bool.false_eq_true, if_false]
  by_cases named : Lexeme.ValidName .unescaped (trim body.toList)
  · refine ⟨some (String.ofList (trim body.toList), .unescaped), ?_⟩
    intro d rest found p
    rw [as_triple]
    exact (Lexeme.tripleTag_of_found found).1 named
  · refine ⟨none, ?_⟩
    intro d rest found p
    rw [as_triple]
    exact (Lexeme.tripleTag_of_found found).2 named

/-! ## Templates -/

/-- A pattern is found no later than where it stands. -/
theorem Text.breakOn_le {pattern t : List Char} (here : pattern <+: t) (a : List Char) :
    ∃ before after, breakOn pattern (a ++ t) = some (before, after) ∧ before.length ≤ a.length := by
  induction a with
  | nil =>
    obtain ⟨after, rfl⟩ := here
    exact ⟨[], after, breakOn_here pattern after, Nat.le_refl _⟩
  | cons c a ih =>
    obtain ⟨before, after, found, short⟩ := ih
    rw [List.cons_append, breakOn]
    cases pattern.isPrefixOf? (c :: (a ++ t)) with
    | some after => exact ⟨[], after, rfl, Nat.zero_le _⟩
    | none => exact ⟨c :: before, after, by rw [found]; rfl, Nat.succ_le_succ short⟩

/-- Where the first opening marker from a text on is that of the next tag, none begins in the text. -/
theorem free_of_found {d : Delimiters} {content : String} {rest : List Part} (found : (Part.text content).Found d rest) :
    Free d content.toList (printed d rest) := by
  intro a b cut filled marker
  obtain ⟨before, after, earlier, short⟩ := breakOn_le marker a
  rw [Part.Found, cut, List.append_assoc, earlier, beforeTag, cut] at found
  obtain ⟨gap, _, same⟩ := Option.map_eq_some_iff.mp found.symm
  have lengths := congrArg List.length same
  have positive := List.length_pos_iff.mpr filled
  simp only [List.length_append] at lengths
  omega

/-- What is read from some characters and from parts behind them, and whether a fault ends the reading, does not
depend on the delimiters. -/
def Settled (cs : List Char) (parts : List Part) : Prop :=
  ∃ (said : List Token) (failed : Bool), ∀ c : Cursor, WellPrinted c.delimiters parts →
    Free c.delimiters cs (printed c.delimiters parts) → c.rest = cs ++ printed c.delimiters parts →
    c.run.tokens.map (·.token) = said ∧ c.run.failure.isSome = failed

namespace Settled

variable {cs content : List Char} {part : Part} {rest : List Part}

/-- A part without markers goes with the characters before it. -/
theorem absorb (same : ∀ d, part.print d = content) (free : ∀ d, part.Found d rest → Free d content (printed d rest))
    (later : Settled (cs ++ content) rest) : Settled cs (part :: rest) := by
  obtain ⟨said, failed, reads⟩ := later
  refine ⟨said, failed, fun c well before whole => ?_⟩
  have split : printed c.delimiters (part :: rest) = content ++ printed c.delimiters rest := by
    rw [printed, List.flatMap_cons, same]
    rfl
  rw [split] at before whole
  exact reads c well.2 (before.append (free c.delimiters well.1)) (by rw [whole, List.append_assoc])

/-- What stands before a tag is read up to the tag. -/
theorem reads_before (opens : ∀ d, d.opening.toList <+: part.print d) (rest : List Part) (cs : List Char) :
    ∃ run : List Token, ∀ c : Cursor, Free c.delimiters cs (printed c.delimiters (part :: rest)) →
      c.rest = cs ++ printed c.delimiters (part :: rest) →
      ∃ tokens m, Cursor.Reads c tokens m ∧ tokens.map (·.token) = run ∧
        m.rest = part.print c.delimiters ++ printed c.delimiters rest ∧ m.rest ≠ [] ∧ m.delimiters = c.delimiters := by
  obtain ⟨run, reads_run⟩ := said_of_run cs
  refine ⟨run, fun c free whole => ?_⟩
  have parted : Parted c.delimiters (printed c.delimiters (part :: rest)) := by
    rw [printed, List.flatMap_cons]
    exact .inr ((opens c.delimiters).trans (List.prefix_append _ _))
  obtain ⟨tokens, m, reads, tokens_said, left, active⟩ := reads_run c _ free parted whole
  refine ⟨tokens, m, reads, tokens_said, left, ?_, active⟩
  obtain ⟨inside, cut⟩ := opens c.delimiters
  rw [left, printed, List.flatMap_cons, ← cut]
  simp [c.delimiters.opening_valid.1]

/-- A tag ends a run of characters. -/
theorem tag {outcome : Option (String × TagKind)} (opens : ∀ d, d.opening.toList <+: part.print d)
    (reads : ∀ d, part.Found d rest → ReadsAs d (part.print d ++ printed d rest) (printed d rest) outcome)
    (later : Settled [] rest) (cs : List Char) : Settled cs (part :: rest) := by
  obtain ⟨run, first⟩ := reads_before opens rest cs
  obtain ⟨said, failed, reads_later⟩ := later
  cases outcome with
  | none =>
    refine ⟨run, true, fun c well free whole => ?_⟩
    obtain ⟨tokens, m, before, tokens_said, left, more, active⟩ := first c free whole
    obtain ⟨e, refused⟩ := reads c.delimiters well.1 m.position
    rw [← left, ← active] at refused
    rw [before.run_eq, Cursor.run_of_error more refused]
    exact ⟨by rw [List.append_nil, tokens_said], rfl⟩
  | some named =>
    obtain ⟨name, kind⟩ := named
    refine ⟨run ++ .tag name kind :: said, failed, fun c well free whole => ?_⟩
    obtain ⟨tokens, m, before, tokens_said, left, more, active⟩ := first c free whole
    obtain ⟨raw, read⟩ := reads c.delimiters well.1 m.position
    rw [← left, ← active] at read
    have next : (m.after ⟨.tag name kind, raw, printed m.delimiters rest⟩).delimiters = c.delimiters := active
    obtain ⟨behind, ended⟩ := reads_later (m.after ⟨.tag name kind, raw, printed m.delimiters rest⟩)
      (by rw [next]; exact well.2) (by rw [next]; exact .nil) (by rw [next, ← active]; rfl)
    rw [before.run_eq, Cursor.run_of_ok more read]
    refine ⟨?_, ended⟩
    rw [List.map_append, tokens_said, List.map_cons, behind]
    rfl

end Settled

theorem settled {parts : List Part} (valid : ∀ part ∈ parts, part.Valid) (cs : List Char) : Settled cs parts := by
  induction parts generalizing cs with
  | nil =>
    obtain ⟨said, reads⟩ := said_of_run cs
    refine ⟨said, false, fun c _ free whole => ?_⟩
    obtain ⟨tokens, m, before, tokens_said, left, _⟩ := reads c [] free (.inl rfl) whole
    rw [before.run_eq, Cursor.run_of_nil left]
    exact ⟨by rw [List.append_nil, tokens_said], rfl⟩
  | cons part rest ih =>
    obtain ⟨one, others⟩ := List.forall_mem_cons.mp valid
    have later := ih others
    cases part with
    | newline lineBreak =>
      have blank : ∀ c ∈ lineBreak.text.toList, isBlank c = true := by
        have all : lineBreak.text.toList.all isBlank = true := by cases lineBreak <;> rfl
        exact fun c member => List.all_eq_true.mp all c member
      exact .absorb (fun _ => rfl) (fun _ _ => .of_blank blank) (later _)
    | text content => exact .absorb (fun _ => rfl) (fun _ found => free_of_found found) (later _)
    | tag body =>
      obtain ⟨outcome, reads⟩ := said_of_tag one
      exact .tag (fun _ => List.prefix_append _ _) (fun d found => reads d rest found) (later []) cs
    | triple body =>
      obtain ⟨outcome, reads⟩ := said_of_triple body
      exact .tag (fun _ => List.prefix_append _ _) (fun d found => reads d rest found) (later []) cs

/-- A template with the standard delimiters. -/
def standardSource (parts : List Part) : String := String.ofList (printed .standard parts)

/-- A template with other delimiters, behind a first line that sets them. -/
def customSource (d : Delimiters) (parts : List Part) : String :=
  d.restoringTag ++ "\n" ++ String.ofList (printed d parts)

variable {d : Delimiters} {parts : List Part}

/-- The first line that sets the delimiters is read, and then the template between them. -/
theorem reads_first_line (d : Delimiters) (parts : List Part) :
    ∃ a b m, Cursor.Reads { rest := (customSource d parts).toList } [a, b] m ∧ a.token = .delimiters .standard d ∧
      b.token = .newline .lf ∧ m.rest = printed d parts ∧ m.delimiters = d := by
  let start : Cursor := { rest := (customSource d parts).toList }
  let change : Lexeme := ⟨.delimiters .standard d, d.restoringTag.toList, '\n' :: printed d parts⟩
  let feed : Lexeme := ⟨.newline .lf, ['\n'], printed d parts⟩
  have whole : start.rest = d.restoringTag.toList ++ '\n' :: printed d parts := by simp [start, customSource]
  have first : lexeme start.delimiters start.position start.rest = .ok change := by
    rw [whole]
    exact d.lexeme_restoringTag start.position _
  have left : start.rest ≠ [] := by simp [whole]
  have second : lexeme (start.after change).delimiters (start.after change).position (start.after change).rest = .ok feed :=
    rfl
  exact ⟨_, _, _, .cons left first (.cons (by simp [Cursor.after, change]) second .nil), rfl, rfl, rfl, rfl⟩

/-- Behind the first line the same is said with the other delimiters. -/
theorem tokenize_customSource (valid : ∀ part ∈ parts, part.Valid) (standard : WellPrinted .standard parts)
    (custom : WellPrinted d parts) :
    ∃ a b rest, (tokenize (customSource d parts)).tokens = a :: b :: rest ∧ a.token = .delimiters .standard d ∧
      b.token = .newline .lf ∧
      rest.map (·.token) = (tokenize (standardSource parts)).tokens.map (·.token) ∧
      (tokenize (customSource d parts)).failure.isSome = (tokenize (standardSource parts)).failure.isSome := by
  obtain ⟨said, failed, reads⟩ := settled valid []
  obtain ⟨a, b, m, first, change, feed, left, active⟩ := reads_first_line d parts
  have with_standard := reads { rest := (standardSource parts).toList } standard .nil (by simp [standardSource])
  have with_custom := reads m (by rw [active]; exact custom) .nil (by rw [active]; exact left)
  have run := first.run_eq
  refine ⟨a, b, m.run.tokens, by rw [tokenize, run]; rfl, change, feed, ?_, ?_⟩
  · exact with_custom.1.trans with_standard.1.symm
  · rw [tokenize, run]
    exact with_custom.2.trans with_standard.2.symm

/-- A line that only changes the delimiters says nothing. -/
theorem readLines_change_line {a b : LocatedToken} {previous next : Delimiters} {lineBreak : LineBreak}
    (change : a.token = .delimiters previous next) (feed : b.token = .newline lineBreak) (indent : String)
    (lines : List Line) : readLines indent (⟨[a, b]⟩ :: lines) = readLines indent lines := by
  have alone : (⟨[a, b]⟩ : Line).standalone = true := by
    rw [Line.standalone_behind_iff change]
    simp [feed, Line.role]
  have nothing : Outline.readLine indent {} ⟨[a, b]⟩ = .ok {} := by
    rw [Outline.readLine, Line.emitted_of_standalone alone]
    simp [alone, change, feed, Token.isTag, Outline.readToken]
  rw [readLines, List.foldlM_cons, nothing]
  rfl

/-- Both printings are read without a fault, or neither; and then they say the same. -/
theorem ofSource_customSource (valid : ∀ part ∈ parts, part.Valid) (standard : WellPrinted .standard parts)
    (custom : WellPrinted d parts) (indent : String) :
    ((layout (standardSource parts)).failure = none ↔ (layout (customSource d parts)).failure = none) ∧
    ((layout (standardSource parts)).failure = none →
      unplacedResult Statement.unplacedAll (Statement.ofSource (customSource d parts) indent) =
        unplacedResult Statement.unplacedAll (Statement.ofSource (standardSource parts) indent)) := by
  obtain ⟨a, b, rest, tokens, change, feed, said, failed⟩ := tokenize_customSource valid standard custom
  have both : (layout (standardSource parts)).failure = none ↔ (layout (customSource d parts)).failure = none := by
    have failed : (layout (customSource d parts)).failure.isSome = (layout (standardSource parts)).failure.isSome := failed
    rw [← Option.not_isSome_iff_eq_none, ← Option.not_isSome_iff_eq_none, failed]
  refine ⟨both, fun clean => ?_⟩
  have clean' := both.mp clean
  have first : (⟨[a, b]⟩ : Line).Complete :=
    ⟨[a], b, rfl, by rw [feed]; rfl, by simp [change, Token.isNewline]⟩
  have lines : (layout (customSource d parts)).lines = ⟨[a, b]⟩ :: wholeLines rest := by
    have grouped : groupLines (a :: b :: rest) = (⟨[a, b]⟩ :: (groupLines rest).1, (groupLines rest).2) :=
      groupLines_line first rest
    rw [lines_of_clean clean', tokens, wholeLines, grouped]
    rfl
  have same := congrArg (·.map Line.ofTokens) (wholeLines_congr (fun _ _ same => same) said)
  rw [List.map_map, List.map_map] at same
  rw [ofSource_eq_readLines clean, ofSource_eq_readLines clean', lines, readLines_change_line change feed,
    lines_of_clean clean, readLines_said, readLines_said]
  exact congrArg (readLines indent) same

/-- Where one of the printings is accepted the other one is, with the same statements up to positions. -/
theorem accepted_printings (valid : ∀ part ∈ parts, part.Valid) (standard : WellPrinted .standard parts)
    (custom : WellPrinted d parts) (indent : String) (stmts : List Statement) :
    (Statement.ofSource (standardSource parts) indent = .ok stmts → ∃ stmts',
      Statement.ofSource (customSource d parts) indent = .ok stmts' ∧
        Statement.unplacedAll stmts' = Statement.unplacedAll stmts) ∧
    (Statement.ofSource (customSource d parts) indent = .ok stmts → ∃ stmts',
      Statement.ofSource (standardSource parts) indent = .ok stmts' ∧
        Statement.unplacedAll stmts' = Statement.unplacedAll stmts) := by
  obtain ⟨both, same⟩ := ofSource_customSource valid standard custom indent
  constructor
  · intro parsed
    exact ok_of_unplacedResult (same (ofSource_eq_ok.mp parsed).1) parsed
  · intro parsed
    exact ok_of_unplacedResult (same (both.mpr (ofSource_eq_ok.mp parsed).1)).symm parsed

namespace Compiler

variable {c : Compiler} {source other name : String} {p : Program} {s : CompileState}

/-- A source that says the same up to positions has the same program. -/
theorem compile_of_unplaced (run : c.compile source name = .ok p s)
    (same : ∀ stmts, Statement.ofSource source "" = .ok stmts → ∃ stmts', Statement.ofSource other "" = .ok stmts' ∧
      Statement.unplacedAll stmts' = Statement.unplacedAll stmts) : ∃ t, c.compile other name = .ok p t := by
  obtain ⟨met, ⟨stmts, nodes, parsed, emits, rfl⟩, _⟩ := compiles_of_compile run
  obtain ⟨stmts', parsed', unplaced⟩ := same stmts parsed
  obtain ⟨t, again, _⟩ := compile_of_compiles ⟨stmts', nodes, parsed', emits.placed rfl unplaced, rfl⟩
  exact ⟨t, again⟩

theorem program?_eq_some {result : EStateM.Result CompileError CompileState Program} :
    program? result = some p ↔ ∃ s, result = .ok p s := by
  cases result <;> simp [program?]

end Compiler

/-- Delimiters do not change what a template means. Printed with the standard ones and with others it is accepted or
refused alike, has the same statements up to positions, and compiles to the same program. -/
theorem delimiters_mean_nothing (valid : ∀ part ∈ parts, part.Valid) (standard : WellPrinted .standard parts)
    (custom : WellPrinted d parts) :
    (∀ indent,
      ((∃ stmts, Statement.ofSource (standardSource parts) indent = .ok stmts) ↔
        ∃ stmts, Statement.ofSource (customSource d parts) indent = .ok stmts) ∧
      ∀ stmts stmts', Statement.ofSource (standardSource parts) indent = .ok stmts →
        Statement.ofSource (customSource d parts) indent = .ok stmts' →
        Statement.unplacedAll stmts' = Statement.unplacedAll stmts) ∧
    ∀ (c : Compiler) (name : String), Compiler.program? (c.compile (customSource d parts) name) =
      Compiler.program? (c.compile (standardSource parts) name) := by
  have accepted := accepted_printings valid standard custom
  constructor
  · intro indent
    refine ⟨⟨?_, ?_⟩, ?_⟩
    · rintro ⟨stmts, parsed⟩
      obtain ⟨stmts', parsed', _⟩ := (accepted indent stmts).1 parsed
      exact ⟨stmts', parsed'⟩
    · rintro ⟨stmts, parsed⟩
      obtain ⟨stmts', parsed', _⟩ := (accepted indent stmts).2 parsed
      exact ⟨stmts', parsed'⟩
    · intro stmts stmts' parsed parsed'
      obtain ⟨again, read, same⟩ := (accepted indent stmts).1 parsed
      obtain rfl := Except.ok.inj (parsed'.symm.trans read)
      exact same
  · intro c name
    ext p
    rw [Compiler.program?_eq_some, Compiler.program?_eq_some]
    constructor
    · rintro ⟨s, run⟩
      exact Compiler.compile_of_unplaced run fun stmts => (accepted "" stmts).2
    · rintro ⟨s, run⟩
      exact Compiler.compile_of_unplaced run fun stmts => (accepted "" stmts).1

/-- Tags that stand alone, one of them over two lines, and a text with a closing marker and the begin of an opening one. -/
def menuParts : List Part :=
  [.tag "#m", .newline .lf, .tag "!\n", .newline .crlf, .text "\x7d ?><", .triple "n", .tag "/m"]

def menuDelimiters : Delimiters := { opening := "<?", closing := "?>" }

def menuStatements : List Statement :=
  [.sect "m" false [.text "\t\x7d ?><", .interpolation "n" false ⟨4, 6⟩] ⟨1, 1⟩]

theorem menu_printed_twice :
    Statement.ofSource (standardSource menuParts) "\t" = .ok menuStatements ∧
      (∀ indent,
        ((∃ stmts, Statement.ofSource (standardSource menuParts) indent = .ok stmts) ↔
          ∃ stmts, Statement.ofSource (customSource menuDelimiters menuParts) indent = .ok stmts) ∧
        ∀ stmts stmts', Statement.ofSource (standardSource menuParts) indent = .ok stmts →
          Statement.ofSource (customSource menuDelimiters menuParts) indent = .ok stmts' →
          Statement.unplacedAll stmts' = Statement.unplacedAll stmts) ∧
      ∀ (c : Compiler) (name : String), Compiler.program? (c.compile (customSource menuDelimiters menuParts) name) =
        Compiler.program? (c.compile (standardSource menuParts) name) := by
  have valid : ∀ part ∈ menuParts, part.Valid := by
    simp [menuParts, Part.Valid, trimStart, isBlank, inRanges, blankRanges]
  have standard : WellPrinted .standard menuParts := by decide
  have custom : WellPrinted menuDelimiters menuParts := by decide
  have accepted : Statement.ofSource (standardSource menuParts) "\t" = .ok menuStatements := by cbv
  exact ⟨accepted, delimiters_mean_nothing valid standard custom⟩

end Mustache

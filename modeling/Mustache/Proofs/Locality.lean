import Mustache.Proofs.Tiling

/-!
# Tokens depend on their own text

What stands behind a token is not read for it: a tag or a line break is read again wherever its text stands
(`lexeme_local`), and a text wherever it ends at the same place (`spanText_last`, `spanText_before`).
Hence tokens in a row are read again from their own text, whatever stood before and behind it
(`Cursor.Reads.again`).
-/

namespace Mustache
open Text

/-! ## Searches -/

namespace Text

theorem isPrefixOf?_append (pattern after : List Char) : pattern.isPrefixOf? (pattern ++ after) = some after := by
  induction pattern with
  | nil => rfl
  | cons p ps ih => simp [isPrefixOf?_cons, ih]

theorem isPrefixOf?_eq_none_iff {pattern cs : List Char} : pattern.isPrefixOf? cs = none ↔ ¬ pattern <+: cs := by
  rw [← List.isPrefixOf_iff_prefix, ← isPrefixOf?_isSome]
  cases pattern.isPrefixOf? cs <;> simp

theorem breakOn_here (pattern r : List Char) : breakOn pattern (pattern ++ r) = some ([], r) := by
  have here := isPrefixOf?_append pattern r
  cases whole : pattern ++ r with
  | nil =>
    obtain ⟨rfl, rfl⟩ := List.append_eq_nil_iff.mp whole
    rfl
  | cons c rest => rw [breakOn, ← whole, here]

/-- The first occurrence of a pattern is the first one whatever follows it. -/
theorem breakOn_append {pattern cs before after : List Char} (found : breakOn pattern cs = some (before, after))
    (r : List Char) : breakOn pattern (before ++ (pattern ++ r)) = some (before, r) := by
  induction cs generalizing before with
  | nil =>
    rw [breakOn] at found
    split at found
    · obtain ⟨rfl, rfl⟩ : [] = before ∧ [] = after := by simpa using found
      exact breakOn_here pattern r
    · simp at found
  | cons c rest ih =>
    rw [breakOn] at found
    split at found
    · obtain ⟨rfl, _⟩ : [] = before ∧ _ = after := by simpa using found
      exact breakOn_here pattern r
    · next later =>
      obtain ⟨⟨b, a⟩, cut, same⟩ := Option.map_eq_some_iff.1 found
      obtain ⟨rfl, rfl⟩ : c :: b = before ∧ a = after := by simpa using same
      -- An occurrence that begins earlier would end inside what stands before `r`.
      have still_later : pattern.isPrefixOf? (c :: (b ++ (pattern ++ r))) = none := by
        rw [isPrefixOf?_eq_none_iff] at later ⊢
        intro earlier
        have short : pattern.length ≤ (c :: b ++ pattern).length := by
          rw [List.length_append]
          omega
        have inside : pattern <+: c :: b ++ pattern :=
          List.prefix_of_prefix_length_le earlier ⟨r, by simp⟩ short
        exact later (inside.trans ⟨a, by simp [breakOn_eq cut]⟩)
      rw [List.cons_append, breakOn, still_later, ih cut]
      rfl

end Text

/-! ## Tags -/

/-- The same token from the same text, with something else behind it. -/
def Lexeme.before (l : Lexeme) (r : List Char) : Lexeme := { l with rest := r }

namespace Lexeme

variable {d : Delimiters} {p q : Position} {l : Lexeme}

theorem checkName_anywhere {kind : TagKind} {name : List Char} (valid : checkName p kind name = .ok ()) :
    checkName q kind name = .ok () := by
  unfold checkName at valid ⊢
  split at valid
  · simp [*]
  · split at valid
    · cases valid
    · split at valid
      · cases valid
      · simp [*]

theorem delimiterTag_local {lead inner : List Char} (read : delimiterTag d p lead inner = .ok l) :
    l.token.isTag = true ∧ ∃ taken, inner = taken ++ l.rest ∧ l.raw = d.opening.toList ++ (lead ++ '=' :: taken) ∧
      ∀ q r, delimiterTag d q lead (taken ++ r) = .ok (l.before r) := by
  unfold delimiterTag at read
  split at read
  · cases read
  · next markers rest found =>
    split at read <;> cases read
    next next valid =>
    refine ⟨rfl, markers ++ changeEnd d, breakOn_eq found, by simp, fun q r => ?_⟩
    simp [delimiterTag, breakOn_append found, valid, before]

theorem tripleTag_local {body lead inner : List Char} (read : tripleTag d p body lead inner = .ok l) :
    l.token.isTag = true ∧ ∃ taken, inner = taken ++ l.rest ∧ l.raw = d.opening.toList ++ (lead ++ '\x7b' :: taken) ∧
      ∀ q whole r, tripleTag d q whole lead (taken ++ r) = .ok (l.before r) := by
  unfold tripleTag at read
  split at read
  · split at read <;> cases read
  · next name rest found =>
    cases valid : checkName p .unescaped (trim name) with
    | error e => rw [valid] at read; cases read
    | ok _ =>
      rw [valid] at read; cases read
      refine ⟨rfl, name ++ tripleEnd d, breakOn_eq found, by simp, fun q whole r => ?_⟩
      simp [tripleTag, breakOn_append found, checkName_anywhere valid, before, bind, Except.bind]

theorem plainTag_local {body : List Char} (read : plainTag d p body = .ok l) :
    l.token.isTag = true ∧ ∃ inner, body = inner ++ d.closing.toList ++ l.rest ∧
      l.raw = d.opening.toList ++ (inner ++ d.closing.toList) ∧
      ∀ q r, plainTag d q (inner ++ d.closing.toList ++ r) = .ok (l.before r) := by
  unfold plainTag at read
  split at read
  · cases read
  · next inner rest found =>
    cases valid : checkName p (readSigil (trim inner)).1 (readSigil (trim inner)).2 with
    | error e => simp only [valid] at read; cases read
    | ok _ =>
      simp only [valid] at read; cases read
      refine ⟨rfl, inner, breakOn_eq found, by simp, fun q r => ?_⟩
      simp [plainTag, breakOn_append found, checkName_anywhere valid, before, bind, Except.bind]

/-- A closing marker is not blank. -/
theorem dropWhile_closing_ne_nil (d : Delimiters) (inner : List Char) :
    (inner ++ d.closing.toList).dropWhile isBlank ≠ [] := by
  obtain ⟨nonempty, significant⟩ := d.closing_valid
  obtain ⟨mark, others, marker⟩ := List.exists_cons_of_ne_nil nonempty
  intro none
  have all_blank := List.takeWhile_append_dropWhile (p := isBlank) (l := inner ++ d.closing.toList)
  rw [none, List.append_nil] at all_blank
  have inside : mark ∈ (inner ++ d.closing.toList).takeWhile isBlank := by
    rw [all_blank]
    simp [marker]
  have mark_blank := List.all_eq_true.mp List.all_takeWhile mark inside
  simp [(significant mark (by simp [marker])).1] at mark_blank

/-- A tag is read from its own text. -/
theorem tag_local {body : List Char} (read : tag d p body = .ok l) :
    l.token.isTag = true ∧ ∃ taken, body = taken ++ l.rest ∧ l.raw = d.opening.toList ++ taken ∧
      ∀ q r, tag d q (taken ++ r) = .ok (l.before r) := by
  have whole := List.takeWhile_append_dropWhile (p := isBlank) (l := body)
  have blank : ∀ c ∈ body.takeWhile isBlank, isBlank c = true :=
    fun c member => List.all_eq_true.mp List.all_takeWhile c member
  unfold tag at read
  dsimp only at read
  split at read
  · next inner start =>
    obtain ⟨tagged, taken, cut, raw, again⟩ := delimiterTag_local read
    refine ⟨tagged, body.takeWhile isBlank ++ '=' :: taken, ?_, raw, fun q r => ?_⟩
    · rw [List.append_assoc, List.cons_append, ← cut, ← start, whole]
    · have lead : isBlank '=' = false := by decide
      simp [tag, List.takeWhile_append_of_pos blank, List.dropWhile_append_of_pos blank, lead, again]
  · next inner start =>
    obtain ⟨tagged, taken, cut, raw, again⟩ := tripleTag_local read
    refine ⟨tagged, body.takeWhile isBlank ++ '\x7b' :: taken, ?_, raw, fun q r => ?_⟩
    · rw [List.append_assoc, List.cons_append, ← cut, ← start, whole]
    · have lead : isBlank '\x7b' = false := by decide
      simp [tag, List.takeWhile_append_of_pos blank, List.dropWhile_append_of_pos blank, lead, again]
  · next no_change no_triple =>
    obtain ⟨tagged, inner, cut, raw, again⟩ := plainTag_local read
    refine ⟨tagged, inner ++ d.closing.toList, cut, raw, fun q r => ?_⟩
    -- The first significant character stands before `r`.
    obtain ⟨c, tail, first⟩ := List.exists_cons_of_ne_nil (dropWhile_closing_ne_nil d inner)
    have there (r : List Char) : (inner ++ d.closing.toList ++ r).dropWhile isBlank = c :: (tail ++ r) := by
      rw [List.dropWhile_append, first]
      rfl
    rw [cut, there] at no_change no_triple
    unfold tag
    dsimp only
    rw [there]
    split
    · next start => exact absurd (by rw [(List.cons.inj start).1]) (no_change (tail ++ l.rest))
    · next start => exact absurd (by rw [(List.cons.inj start).1]) (no_triple (tail ++ l.rest))
    · exact again q r

end Lexeme

/-! ## Tokens -/

section

variable {d : Delimiters} {p : Position} {cs : List Char} {l : Lexeme}

theorem lineBreak?_append {a : List Char} (found : Lexeme.lineBreak? a = some l) (r : List Char) :
    Lexeme.lineBreak? (a ++ r) = some (l.before (l.rest ++ r)) := by
  unfold Lexeme.lineBreak? at found
  split at found <;> cases found <;> rfl

/-- A marker ends a text. -/
theorem endsText_of_marker {opening cs : List Char} (marker : opening <+: cs) : Lexeme.endsText opening cs = true := by
  rw [Lexeme.endsText, List.isPrefixOf_iff_prefix.mpr marker, Bool.or_true]

/-- What ends a text goes on to end it, whatever follows. -/
theorem endsText_append {opening a : List Char} (ends : Lexeme.endsText opening a = true) (r : List Char) :
    Lexeme.endsText opening (a ++ r) = true := by
  unfold Lexeme.endsText at ends ⊢
  rw [Bool.or_eq_true] at ends ⊢
  rcases ends with break_ | marker
  · obtain ⟨l, found⟩ := Option.isSome_iff_exists.mp break_
    exact .inl (by rw [lineBreak?_append found]; rfl)
  · rw [List.isPrefixOf_iff_prefix] at marker ⊢
    exact .inr (marker.trans (List.prefix_append a r))

/-- No opening marker begins with a line break. -/
theorem lineBreak?_opening (d : Delimiters) (r : List Char) : Lexeme.lineBreak? (d.opening.toList ++ r) = none := by
  obtain ⟨nonempty, significant⟩ := d.opening_valid
  obtain ⟨mark, others, marker⟩ := List.exists_cons_of_ne_nil nonempty
  have mark_significant := (significant mark (by simp [marker])).1
  have not_lf : mark ≠ '\n' := by
    rintro rfl
    exact absurd mark_significant (by decide)
  have not_cr : mark ≠ '\r' := by
    rintro rfl
    exact absurd mark_significant (by decide)
  rw [marker, List.cons_append]
  unfold Lexeme.lineBreak?
  split <;> simp_all

/-- A line break or a tag begins with what ends a text, and is read from its own text. -/
theorem lexeme_local (read : lexeme d p cs = .ok l) (ends : Lexeme.endsText d.opening.toList cs = true) :
    (∀ content, l.token ≠ .text content) ∧ Lexeme.endsText d.opening.toList l.raw = true ∧
      ∀ q r, lexeme d q (l.raw ++ r) = .ok (l.before r) := by
  unfold lexeme at read
  split at read
  · next found =>
    cases read
    unfold Lexeme.lineBreak? at found
    split at found <;> cases found
    · exact ⟨nofun, rfl, fun q r => rfl⟩
    · exact ⟨nofun, rfl, fun q r => rfl⟩
  · next no_break =>
    split at read
    · next body found =>
      obtain ⟨tagged, taken, cut, raw, again⟩ := Lexeme.tag_local read
      refine ⟨?_, ?_, fun q r => ?_⟩
      · intro content same
        rw [same] at tagged
        cases tagged
      · exact endsText_of_marker ⟨taken, raw.symm⟩
      · rw [lexeme, raw, List.append_assoc, lineBreak?_opening, isPrefixOf?_append]
        exact again q r
    · next no_tag =>
      simp [Lexeme.endsText, no_break, ← isPrefixOf?_isSome, no_tag] at ends

/-- Any other token is the text up to where it ends. -/
theorem lexeme_text (d : Delimiters) (p : Position) (goes_on : Lexeme.endsText d.opening.toList cs = false) :
    lexeme d p cs = .ok ⟨.text (String.ofList (Lexeme.spanText d.opening.toList cs).1),
      (Lexeme.spanText d.opening.toList cs).1, (Lexeme.spanText d.opening.toList cs).2⟩ := by
  obtain ⟨no_break, no_marker⟩ := Bool.or_eq_false_iff.mp goes_on
  rw [← isPrefixOf?_isSome] at no_marker
  rw [lexeme, Option.not_isSome_iff_eq_none.mp (Bool.eq_false_iff.mp no_break),
    Option.not_isSome_iff_eq_none.mp (Bool.eq_false_iff.mp no_marker)]

theorem span_of_lexeme (read : lexeme d p cs = .ok l) (goes_on : Lexeme.endsText d.opening.toList cs = false) :
    l.token = .text (String.ofList l.raw) ∧ Lexeme.spanText d.opening.toList cs = (l.raw, l.rest) := by
  rw [lexeme_text d p goes_on] at read
  cases read
  exact ⟨rfl, rfl⟩

theorem endsText_nil (d : Delimiters) : Lexeme.endsText d.opening.toList [] = false := by
  obtain ⟨mark, others, marker⟩ := List.exists_cons_of_ne_nil d.opening_valid.1
  simp [Lexeme.endsText, Lexeme.lineBreak?, marker]

/-- A text ends where something ends it, or with the source. -/
theorem spanText_stops (opening cs : List Char) :
    (Lexeme.spanText opening cs).2 = [] ∨ Lexeme.endsText opening (Lexeme.spanText opening cs).2 = true := by
  induction cs with
  | nil => exact .inl rfl
  | cons c r ih =>
    rw [Lexeme.spanText]
    split
    · next ends => exact .inr ends
    · exact ih

/-- The first character of a text, and its other characters. -/
theorem spanText_cons {opening r raw rest : List Char} {c : Char} :
    Lexeme.spanText opening (c :: r) = (c :: raw, rest) ↔
      Lexeme.endsText opening (c :: r) = false ∧ Lexeme.spanText opening r = (raw, rest) := by
  rw [Lexeme.spanText]
  split
  · next ends => simp [ends]
  · next goes_on => simp [goes_on, Prod.ext_iff]

/-- A text is read again where the source ends behind it. -/
theorem spanText_last {opening raw rest : List Char} (span : Lexeme.spanText opening (raw ++ rest) = (raw, rest)) :
    Lexeme.spanText opening raw = (raw, []) := by
  induction raw with
  | nil => rfl
  | cons c r ih =>
    rw [List.cons_append, spanText_cons] at span
    refine spanText_cons.mpr ⟨?_, ih span.2⟩
    -- What ends the text earlier would have ended it before.
    refine Bool.eq_false_iff.mpr fun ends => ?_
    have before := endsText_append ends rest
    rw [List.cons_append, span.1] at before
    cases before

theorem exists_blank_of_lineBreak? (found : (Lexeme.lineBreak? cs).isSome = true) : ∃ c ∈ cs, isBlank c = true := by
  unfold Lexeme.lineBreak? at found
  split at found
  · exact ⟨'\n', List.mem_cons_self, by decide⟩
  · exact ⟨'\r', List.mem_cons_self, by decide⟩
  · cases found

/-- Whether a line break begins at a character is settled by the character behind it. -/
theorem lineBreak?_isSome_append (a b : Char) (between r : List Char) :
    (Lexeme.lineBreak? (a :: b :: (between ++ r))).isSome = (Lexeme.lineBreak? (a :: b :: between)).isSome := by
  unfold Lexeme.lineBreak?
  split <;> simp_all

/-- What stands behind the mark that ends a text does not bear on whether the text ends earlier. -/
theorem endsText_before {e : List Char} (ends : Lexeme.endsText d.opening.toList e = true) (c : Char)
    (between r : List Char) :
    Lexeme.endsText d.opening.toList (c :: (between ++ (e ++ r))) =
      Lexeme.endsText d.opening.toList (c :: (between ++ e)) := by
  have more : between ++ e ≠ [] := by
    intro none
    rw [(List.append_eq_nil_iff.mp none).2, endsText_nil] at ends
    cases ends
  have same_break : (Lexeme.lineBreak? (c :: (between ++ (e ++ r)))).isSome =
      (Lexeme.lineBreak? (c :: (between ++ e))).isSome := by
    obtain ⟨b, others, split⟩ := List.exists_cons_of_ne_nil more
    rw [← List.append_assoc, split, List.cons_append, lineBreak?_isSome_append]
  have same_marker : d.opening.toList <+: c :: (between ++ (e ++ r)) ↔ d.opening.toList <+: c :: (between ++ e) := by
    refine ⟨fun marker => ?_, fun marker => marker.trans ⟨r, by simp⟩⟩
    have here : c :: (between ++ e) <+: c :: (between ++ (e ++ r)) := ⟨r, by simp⟩
    by_cases short : d.opening.toList.length ≤ (c :: (between ++ e)).length
    · exact List.prefix_of_prefix_length_le marker here short
    · -- A longer marker would hold the mark, which is another marker or a blank.
      have within : c :: (between ++ e) <+: d.opening.toList :=
        List.prefix_of_prefix_length_le here marker (by omega)
      rcases Bool.or_eq_true_iff.mp ends with break_ | other
      · obtain ⟨x, member, blank⟩ := exists_blank_of_lineBreak? break_
        have inside : x ∈ d.opening.toList := within.subset (by simp [member])
        rw [(d.opening_valid.2 x inside).1] at blank
        cases blank
      · have fits := (List.isPrefixOf_iff_prefix.mp other).length_le
        rw [List.length_cons, List.length_append] at short
        omega
  rw [Lexeme.endsText, Lexeme.endsText, same_break, Bool.eq_iff_iff, Bool.or_eq_true, Bool.or_eq_true,
    List.isPrefixOf_iff_prefix, List.isPrefixOf_iff_prefix, same_marker]

/-- A text is read again before the mark that ended it. -/
theorem spanText_before {raw e r : List Char} (ends : Lexeme.endsText d.opening.toList e = true)
    (span : Lexeme.spanText d.opening.toList (raw ++ (e ++ r)) = (raw, e ++ r)) (other : List Char) :
    Lexeme.spanText d.opening.toList (raw ++ (e ++ other)) = (raw, e ++ other) := by
  induction raw with
  | nil =>
    cases e with
    | nil => simp [endsText_nil] at ends
    | cons c e =>
      have stops := endsText_append ends other
      rw [List.cons_append] at stops
      rw [List.nil_append, List.cons_append, Lexeme.spanText, if_pos stops]
  | cons c raw ih =>
    rw [List.cons_append, spanText_cons] at span ⊢
    rw [endsText_before ends] at span ⊢
    exact ⟨span.1, ih span.2⟩

/-- A text is a token where something is left. -/
theorem lexeme_of_spanText {raw rest : List Char} (p : Position) (filled : raw ≠ [])
    (span : Lexeme.spanText d.opening.toList cs = (raw, rest)) :
    lexeme d p cs = .ok ⟨.text (String.ofList raw), raw, rest⟩ := by
  have goes_on : Lexeme.endsText d.opening.toList cs = false := by
    cases cs with
    | nil => exact endsText_nil d
    | cons c r =>
      refine Bool.eq_false_iff.mpr fun ends => ?_
      rw [Lexeme.spanText, if_pos ends] at span
      exact filled (Prod.mk.inj span).1.symm
  rw [lexeme_text d p goes_on, span]

end

/-! ## Tokens in a row -/

/-- What a token says and how it is written, wherever it stands. -/
def LocatedToken.content (t : LocatedToken) : Token × String := (t.token, t.raw)

/-- The last of some tokens is no text, which might take in what follows. -/
def Closed (tokens : List LocatedToken) : Prop := ∀ t ∈ tokens.getLast?, ∀ content, t.token ≠ .text content

theorem Closed.tail {t : LocatedToken} {tokens : List LocatedToken} (closed : Closed (t :: tokens)) :
    Closed tokens := by
  cases tokens with
  | nil => nofun
  | cons u rest => simpa [Closed] using closed

namespace Cursor.Reads

variable {c d : Cursor} {l : Lexeme} {tokens : List LocatedToken} {r : List Char}

/-- The first token of a row is read again from the text of the row. -/
theorem first_again (left : c.rest ≠ []) (read : lexeme c.delimiters c.position c.rest = .ok l)
    (later : Reads (c.after l) tokens d) (closed : r = [] ∨ Closed (c.locate l :: tokens)) (p : Position) :
    lexeme c.delimiters p (l.raw ++ (rawText tokens ++ r)) = .ok (l.before (rawText tokens ++ r)) := by
  cases ends : Lexeme.endsText c.delimiters.opening.toList c.rest with
  | true => exact (lexeme_local read ends).2.2 p _
  | false =>
    obtain ⟨text, span⟩ := span_of_lexeme read ends
    have filled := lexeme_raw_ne_nil left read
    have again {rest : List Char} (span : Lexeme.spanText c.delimiters.opening.toList (l.raw ++ rest) = (l.raw, rest)) :
        lexeme c.delimiters p (l.raw ++ rest) = .ok (l.before rest) := by
      rw [lexeme_of_spanText p filled span, ← text]
      rfl
    rw [← lexeme_append read] at span
    cases later with
    | nil =>
      -- Nothing may follow the last text.
      obtain rfl : r = [] := closed.resolve_right fun closed => closed _ rfl _ text
      exact again (by simpa using spanText_last span)
    | @cons _ _ next tokens more read_next later =>
      -- The next token ends the text again.
      have stops := spanText_stops c.delimiters.opening.toList (l.raw ++ l.rest)
      have same : (c.after l).delimiters = c.delimiters := by simp [Cursor.after, text]
      rw [same] at read_next
      rw [span] at stops
      have next_ends := (lexeme_local read_next (stops.resolve_left more)).2.1
      have next_whole : next.raw ++ next.rest = l.rest := lexeme_append read_next
      rw [← next_whole] at span
      have before := spanText_before next_ends span (rawText tokens ++ r)
      exact again (by simpa [Cursor.locate] using before)

/-- Tokens in a row are read again from their own text, if what follows is not taken in by a last text. -/
theorem again {c' : Cursor} (reads : Reads c tokens c') (closed : r = [] ∨ Closed tokens)
    (same : d.delimiters = c.delimiters) (whole : d.rest = rawText tokens ++ r) :
    ∃ copies d', Reads d copies d' ∧ copies.map (·.content) = tokens.map (·.content) ∧ d'.rest = r := by
  induction reads generalizing d with
  | nil => exact ⟨[], d, .nil, rfl, whole⟩
  | @cons c c' l tokens left read later ih =>
    rw [rawText_cons, List.append_assoc] at whole
    have written : (c.locate l).raw.toList = l.raw := by simp [Cursor.locate]
    rw [written] at whole
    have here := first_again left read later closed d.position
    rw [← same, ← whole] at here
    have more : d.rest ≠ [] := by simp [whole, lexeme_raw_ne_nil left read]
    have next : (d.after (l.before (rawText tokens ++ r))).delimiters = (c.after l).delimiters := by
      simp [Cursor.after, Lexeme.before, same]
    obtain ⟨copies, d', reads, contents, rest⟩ := ih (closed.imp_right Closed.tail) next rfl
    refine ⟨_, d', .cons more here reads, ?_, rest⟩
    simpa [LocatedToken.content, Cursor.locate, Lexeme.before] using contents

end Cursor.Reads
end Mustache

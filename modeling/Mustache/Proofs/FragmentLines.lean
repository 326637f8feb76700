import Mustache.Proofs.Fragments
import Mustache.Proofs.Unplaced

/-!
# The lines of a fragment

A fragment between anchors that stand alone has the lines that its source has between them, the first one
behind the tag that restores the delimiters, if there is one (`Fragment.lines_of_extraction`). Every line but
the first contributes to the output as in the source. Behind that tag the first one does so only if it
neither is blank nor stands alone: a blank line stands alone with the tag in it, and its line break is lost
(`Fragment.gap_loses_line`); a line that stands alone does not with a second tag, and its blanks are written.
-/

namespace Mustache
open Text

/-! ## Grouping -/

/-- A line that a line break ends. -/
def Line.Complete (line : Line) : Prop :=
  ∃ front last, line.tokens = front ++ [last] ∧ last.token.isNewline = true ∧ ∀ t ∈ front, t.token.isNewline = false

theorem groupLines_complete (tokens : List LocatedToken) : ∀ line ∈ (groupLines tokens).1, line.Complete := by
  induction tokens with
  | nil => exact List.forall_mem_nil _
  | cons t r ih =>
    rw [groupLines]
    split
    · next break_ => exact List.forall_mem_cons.mpr ⟨⟨[], t, rfl, break_, List.forall_mem_nil _⟩, ih⟩
    · next within =>
      split
      · exact List.forall_mem_nil _
      · next line lines unfinished grouped =>
        rw [grouped] at ih
        obtain ⟨⟨front, last, cut, break_, inside⟩, others⟩ := List.forall_mem_cons.mp ih
        refine List.forall_mem_cons.mpr ⟨⟨t :: front, last, by rw [cut]; rfl, break_, ?_⟩, others⟩
        exact List.forall_mem_cons.mpr ⟨Bool.eq_false_iff.mpr within, inside⟩

/-- Tokens that a line break ends are grouped as a line. -/
theorem groupLines_line {line : Line} (complete : line.Complete) (r : List LocatedToken) :
    groupLines (line.tokens ++ r) = (line :: (groupLines r).1, (groupLines r).2) := by
  obtain ⟨tokens⟩ := line
  obtain ⟨front, last, rfl, break_, inside⟩ := complete
  dsimp only
  induction front with
  | nil => simp [groupLines, break_]
  | cons t front ih =>
    obtain ⟨first, others⟩ := List.forall_mem_cons.mp inside
    rw [List.cons_append, List.cons_append, groupLines, if_neg (by simp [first]), ih others]

theorem groupLines_flatMap {lines : List Line} (complete : ∀ line ∈ lines, line.Complete) :
    groupLines (lines.flatMap (·.tokens)) = (lines, []) := by
  induction lines with
  | nil => rfl
  | cons line rest ih =>
    obtain ⟨first, others⟩ := List.forall_mem_cons.mp complete
    rw [List.flatMap_cons, groupLines_line first, ih others]

/-- What a line holds, wherever it stands. -/
def Line.contents (line : Line) : List (Token × String) := line.tokens.map (·.content)

theorem groupLines_within {tokens : List LocatedToken} (within : ∀ t ∈ tokens, t.token.isNewline = false) :
    groupLines tokens = ([], tokens) := by
  induction tokens with
  | nil => rfl
  | cons t rest ih =>
    obtain ⟨first, others⟩ := List.forall_mem_cons.mp within
    rw [groupLines, if_neg (by simp [first]), ih others]

section

variable {α : Type} {f : LocatedToken → α} {a b : List LocatedToken}

/-- How tokens are grouped depends on what they say. -/
theorem groupLines_congr (tells : ∀ t u, f t = f u → t.token = u.token) (same : a.map f = b.map f) :
    (groupLines a).1.map (·.tokens.map f) = (groupLines b).1.map (·.tokens.map f) ∧
      (groupLines a).2.map f = (groupLines b).2.map f := by
  induction a generalizing b with
  | nil =>
    obtain rfl : b = [] := List.map_eq_nil_iff.mp same.symm
    exact ⟨rfl, rfl⟩
  | cons t r ih =>
    obtain ⟨u, s, rfl, first, others⟩ := List.map_eq_cons_iff.mp same.symm
    obtain ⟨lines, unfinished⟩ := ih others.symm
    rw [groupLines, groupLines, tells u t first]
    split
    · exact ⟨by simp [first, lines], unfinished⟩
    · revert lines unfinished
      obtain ⟨lines, unfinished⟩ := groupLines r
      obtain ⟨lines', unfinished'⟩ := groupLines s
      intro same_lines same_rest
      cases lines with
      | nil =>
        obtain rfl : lines' = [] := List.map_eq_nil_iff.mp same_lines.symm
        exact ⟨rfl, by simpa [first] using same_rest⟩
      | cons line lines =>
        obtain ⟨line', lines', rfl, head, rest⟩ := List.map_eq_cons_iff.mp same_lines.symm
        exact ⟨by simp [first, rest, head], same_rest⟩

end

/-- The lines of some tokens, with the unfinished last one. -/
def wholeLines (tokens : List LocatedToken) : List Line :=
  (groupLines tokens).1 ++ if (groupLines tokens).2.isEmpty then [] else [⟨(groupLines tokens).2⟩]

theorem lines_of_clean {source : String} (clean : (tokenize source).failure = none) :
    (layout source).lines = wholeLines (tokenize source).tokens := by
  simp [layout, clean, wholeLines]

theorem wholeLines_congr {α : Type} {f : LocatedToken → α} {a b : List LocatedToken}
    (tells : ∀ t u, f t = f u → t.token = u.token) (same : a.map f = b.map f) :
    (wholeLines a).map (·.tokens.map f) = (wholeLines b).map (·.tokens.map f) := by
  obtain ⟨lines, unfinished⟩ := groupLines_congr tells same
  have as_many := congrArg List.isEmpty unfinished
  rw [List.isEmpty_map, List.isEmpty_map] at as_many
  rw [wholeLines, wholeLines, List.map_append, List.map_append, lines, as_many]
  split
  · rfl
  · rw [List.map_singleton, List.map_singleton, unfinished]

/-- Puts something in front of the first of several lines, or in a line of its own if there is none. -/
def inFront {α : Type} (r : List α) : List (List α) → List (List α)
  | [] => if r.isEmpty then [] else [r]
  | first :: rest => (r ++ first) :: rest

theorem map_inFront {α β : Type} (f : α → β) (r : List α) (lines : List (List α)) :
    (inFront r lines).map (·.map f) = inFront (r.map f) (lines.map (·.map f)) := by
  cases lines with
  | nil => cases r <;> rfl
  | cons first rest => simp [inFront]

/-- Lines with some tokens in front of them. -/
def linesBehind (r : List LocatedToken) (lines : List Line) : List Line :=
  (inFront r (lines.map (·.tokens))).map Line.mk

@[simp] theorem linesBehind_nil (lines : List Line) : linesBehind [] lines = lines := by
  cases lines <;> simp [linesBehind, inFront, Function.comp_def]

theorem contents_linesBehind (r : List LocatedToken) (lines : List Line) :
    (linesBehind r lines).map (·.contents) = inFront (r.map (·.content)) (lines.map (·.contents)) := by
  have mapped := map_inFront LocatedToken.content r (lines.map (·.tokens))
  rw [List.map_map] at mapped
  rw [linesBehind, List.map_map]
  exact mapped

theorem tail_linesBehind (r : List LocatedToken) (lines : List Line) :
    (linesBehind r lines).tail = lines.tail := by
  cases lines with
  | nil => cases r <;> rfl
  | cons line rest => simp [linesBehind, inFront, Function.comp_def]

/-- Tokens without a line break in front of complete lines belong to the first of them. -/
theorem wholeLines_behind {r : List LocatedToken} {lines : List Line} (inside : ∀ t ∈ r, t.token.isNewline = false)
    (complete : ∀ line ∈ lines, line.Complete) :
    wholeLines (r ++ lines.flatMap (·.tokens)) = linesBehind r lines := by
  cases lines with
  | nil =>
    rw [List.flatMap_nil, List.append_nil, wholeLines, groupLines_within inside]
    cases r <;> rfl
  | cons line rest =>
    obtain ⟨⟨front, last, tokens, break_, within⟩, others⟩ := List.forall_mem_cons.mp complete
    have first : (⟨r ++ line.tokens⟩ : Line).Complete :=
      ⟨r ++ front, last, by rw [tokens, List.append_assoc], break_, List.forall_mem_append.mpr ⟨inside, within⟩⟩
    have grouped := groupLines_line first (rest.flatMap (·.tokens))
    rw [groupLines_flatMap others] at grouped
    rw [List.flatMap_cons, ← List.append_assoc, wholeLines, grouped]
    simp [linesBehind, inFront, Function.comp_def]

/-- All lines of a source but the last are complete. -/
theorem layout_complete {source : String} {front later : List Line} {line : Line}
    (lines : (layout source).lines = front ++ line :: later) : ∀ l ∈ front, l.Complete := by
  have complete := groupLines_complete (tokenize source).tokens
  unfold layout at lines
  dsimp only at lines
  rcases List.append_eq_append_iff.mp lines with ⟨a, rfl, rest⟩ | ⟨a, whole, _⟩
  · -- The line and what is in front of it would both be behind the last line break.
    split at rest
    · simp at rest
    · cases a with
      | nil => simpa using complete
      | cons _ _ => simp at rest
  · rw [whole] at complete
    exact fun l member => complete l (List.mem_append_left _ member)

/-! ## What a line contributes -/

namespace Line

/-- What a line holds, and whether that contributes to the output. -/
def hints (line : Line) : List ((Token × String) × Bool) := line.tokens.map fun t => (t.content, line.emits t)

theorem said_of_contents {a b : Line} (same : a.contents = b.contents) : a.said = b.said := by
  have first (line : Line) : line.said = line.contents.map (·.1) := by
    simp [said, contents, LocatedToken.content, Function.comp_def]
  rw [first, first, same]

theorem hints_eq (line : Line) :
    line.hints = line.contents.map fun entry => (entry, !line.standalone || entry.1.isTag) := by
  simp [hints, contents, emits, LocatedToken.content, Function.comp_def]

theorem hints_congr {a b : Line} (same : a.contents = b.contents) : a.hints = b.hints := by
  rw [hints_eq, hints_eq, same, standalone_of_said (said_of_contents same)]

/-- The line of some contents, without places. -/
def ofContents (contents : List (Token × String)) : Line := ⟨contents.map fun entry => ⟨entry.1, {}, 0, entry.2⟩⟩

theorem unplaced_eq (line : Line) : line.unplaced = ofContents line.contents := by
  simp [unplaced, ofContents, contents, LocatedToken.content, LocatedToken.unplaced, Function.comp_def]

theorem unplaced_congr {a b : Line} (same : a.contents = b.contents) : a.unplaced = b.unplaced := by
  rw [unplaced_eq, unplaced_eq, same]

/-- What depends on the contents of lines only is the same for lines of the same contents. -/
theorem map_congr_contents {β : Type} {f : Line → β} (respects : ∀ {a b : Line}, a.contents = b.contents → f a = f b)
    {a b : List Line} (same : a.map (·.contents) = b.map (·.contents)) : a.map f = b.map f := by
  induction a generalizing b with
  | nil =>
    obtain rfl : b = [] := List.map_eq_nil_iff.mp same.symm
    rfl
  | cons line rest ih =>
    obtain ⟨line', rest', rfl, first, others⟩ := List.map_eq_cons_iff.mp same.symm
    rw [List.map_cons, List.map_cons, respects first, ih others.symm]

/-- A line that stands alone or is blank. -/
def Bare (line : Line) : Prop := line.standalone = true ∨ ∀ t ∈ line.tokens, role t.token = .blank

section

variable {line : Line} {r : LocatedToken} {previous next : Delimiters}

/-- Behind a change of the delimiters a line stands alone if it is blank. -/
theorem standalone_behind_iff (change : r.token = .delimiters previous next) (tokens : List LocatedToken) :
    (⟨r :: tokens⟩ : Line).standalone = true ↔ ∀ t ∈ tokens, role t.token = .blank := by
  have first : role r.token = .tag := by rw [change, role]
  have alone_iff : (⟨r :: tokens⟩ : Line).standalone = true ↔
      Role.content ∉ tokens.map (role ·.token) ∧ Role.tag ∉ tokens.map (role ·.token) := by
    simp [standalone, first, List.count_eq_zero]
  rw [alone_iff]
  refine ⟨fun free t member => ?_, fun blank => ⟨?_, ?_⟩⟩
  · have listed : role t.token ∈ tokens.map (role ·.token) := List.mem_map_of_mem member
    cases kind : role t.token with
    | blank => rfl
    | tag => exact absurd (kind ▸ listed) free.2
    | content => exact absurd (kind ▸ listed) free.1
  all_goals
    intro listed
    obtain ⟨t, member, kind⟩ := List.mem_map.mp listed
    rw [blank t member] at kind
    cases kind

/-- A line that stands alone is not blank. -/
theorem exists_tag_of_standalone (alone : line.standalone = true) : ∃ t ∈ line.tokens, role t.token = .tag := by
  have counted : (line.tokens.map (role ·.token)).count .tag = 1 := by
    simp only [standalone, Bool.and_eq_true, beq_iff_eq] at alone
    exact alone.2
  exact List.mem_map.mp (List.count_pos_iff.mp (by omega))

/-- A line stands alone when beside one tag there are only blanks. -/
theorem standalone_of_tag {front back : List LocatedToken} {t : LocatedToken} (tokens : line.tokens = front ++ t :: back)
    (tag : role t.token = .tag) (blank : ∀ u ∈ front ++ back, role u.token = .blank) : line.standalone = true := by
  obtain ⟨before, behind⟩ := List.forall_mem_append.mp blank
  have front_roles := List.map_eq_replicate_iff.mpr before
  have back_roles := List.map_eq_replicate_iff.mpr behind
  rw [standalone, tokens, List.map_append, List.map_cons, front_roles, back_roles, tag]
  simp [List.count_append, List.count_replicate]

/-- With a change of the delimiters in front of it a line stands alone, or not, as before if it is not bare. -/
theorem standalone_behind_eq_iff (change : r.token = .delimiters previous next) :
    (⟨r :: line.tokens⟩ : Line).standalone = line.standalone ↔ ¬ line.Bare := by
  have behind := standalone_behind_iff change line.tokens
  by_cases blank : ∀ t ∈ line.tokens, role t.token = .blank
  · have not_alone : line.standalone = false := by
      refine Bool.eq_false_iff.mpr fun alone => ?_
      obtain ⟨t, member, tag⟩ := exists_tag_of_standalone alone
      rw [blank t member] at tag
      cases tag
    simpa [Bare, behind.mpr blank, not_alone] using blank
  · have not_alone : (⟨r :: line.tokens⟩ : Line).standalone = false :=
      Bool.eq_false_iff.mpr fun alone => blank (behind.mp alone)
    rw [not_alone, Bare, or_iff_left blank]
    cases line.standalone <;> simp

theorem hints_behind_iff (complete : line.Complete) (change : r.token = .delimiters previous next) :
    (⟨r :: line.tokens⟩ : Line).hints = (r.content, true) :: line.hints ↔ ¬ line.Bare := by
  rw [← standalone_behind_eq_iff change]
  have tag : r.token.isTag = true := by rw [change, Token.isTag]
  refine ⟨fun same => ?_, fun same => ?_⟩
  · -- The line break tells whether the line stands alone.
    obtain ⟨front, last, tokens, break_, _⟩ := complete
    have no_tag : last.token.isTag = false := by
      cases kind : last.token <;> simp_all [Token.isNewline, Token.isTag]
    have member : last ∈ line.tokens := by simp [tokens]
    have emitted := List.map_inj_left.mp (List.tail_eq_of_cons_eq same) last member
    simpa [emits, no_tag] using emitted
  · simp only [hints, List.map_cons, emits, same, tag, Bool.or_true]

end

end Line

/-! ## What lines say -/

namespace Outline

variable {a b : Line} {r : LocatedToken} {previous next : Delimiters}

/-- Whether a line stands alone, and what goes before its inclusions, is all that its tokens need of it. -/
theorem readToken_congr {i j : String} (same : a.standalone = b.standalone)
    (margin : a.standalone = true → i ++ a.indent = j ++ b.indent) : readToken i a = readToken j b := by
  funext o t
  unfold readToken
  cases t.token with
  | tag name kind =>
    cases alone : a.standalone with
    | true =>
      have other := same ▸ alone
      cases kind <;> simp [readTag, alone, other, margin alone]
    | false =>
      have other := same ▸ alone
      cases kind <;> simp [readTag, alone, other]
  | _ => rfl

/-- A change of the delimiters in front of a line that is not bare says nothing. -/
theorem readLine_behind (indent : String) (full : ¬ a.Bare) (change : r.token = .delimiters previous next)
    (o : Outline) : readLine indent o ⟨r :: a.tokens⟩ = readLine indent o a := by
  have line_alone : a.standalone = false := Bool.eq_false_iff.mpr fun alone => full (.inl alone)
  have behind_alone : (⟨r :: a.tokens⟩ : Line).standalone = false := by
    rw [(Line.standalone_behind_eq_iff change).mpr full, line_alone]
  have first (o : Outline) : readToken indent ⟨r :: a.tokens⟩ o r = .ok o := by rw [readToken, change]
  have others : readToken indent ⟨r :: a.tokens⟩ = readToken indent a := by
    refine readToken_congr (behind_alone.trans line_alone.symm) ?_
    intro alone
    rw [behind_alone] at alone
    cases alone
  rw [readLine, readLine, Line.emitted_of_not_standalone line_alone, Line.emitted_of_not_standalone behind_alone,
    line_alone, behind_alone, List.foldlM_cons, first, others]
  rfl

/-- A change of the delimiters in a line of its own says nothing. -/
theorem readLine_change (indent : String) (change : r.token = .delimiters previous next) (o : Outline) :
    readLine indent o ⟨[r]⟩ = .ok o := by
  have alone := (Line.standalone_behind_iff change []).mpr nofun
  simp [readLine, Line.emitted_of_standalone alone, alone, change, Token.isTag, readToken]

end Outline

/-- A line which is the same with a change of the delimiters in front. -/
theorem readLines_behind {r : LocatedToken} {previous next : Delimiters} {lines : List Line} (indent : String)
    (full : ∀ first ∈ lines.head?, ¬ first.Bare) (change : r.token = .delimiters previous next) :
    readLines indent (linesBehind [r] lines) = readLines indent lines := by
  cases lines with
  | nil =>
    have nothing : readLines indent [⟨[r]⟩] = readLines indent [] := by
      rw [readLines, List.foldlM_cons, Outline.readLine_change indent change]
      rfl
    exact nothing
  | cons line rest =>
    have same := Outline.readLine_behind indent (full line rfl) change {}
    simp [linesBehind, inFront, readLines, same, Function.comp_def]

/-! ## The lines of a fragment -/

namespace Fragment

variable {source name : String}

/-- Whether the first of the lines in a fragment, with the restored delimiters in front of it, stands alone or
not as in the source. -/
def KeepsFirst (d : Delimiters) (between : List Line) : Prop :=
  d = .standard ∨ ∀ first ∈ between.head?, ¬ first.Bare

/-- How a fragment is read compares with some lines of its source, which stand between the lines of its
anchors. -/
structure Extraction.LinesAlike (x : Extraction source name) (t : String) (between : List Line) : Prop where
  inside : ∃ earlier later, (layout source).lines = earlier ++ x.opening.1 :: (between ++ x.closing.1 :: later)
  clean : (layout t).failure = none
  /-- The restoring tag goes in front of the first line. -/
  contents : (layout t).lines.map (·.contents) = inFront (restored x.delimiters) (between.map (·.contents))
  hints_tail : (layout t).lines.tail.map (·.hints) = between.tail.map (·.hints)
  hints_iff : (layout t).lines.map (·.hints) =
      inFront ((restored x.delimiters).map (·, true)) (between.map (·.hints)) ↔ KeepsFirst x.delimiters between
  statements : KeepsFirst x.delimiters between → ∀ indent,
    unplacedResult Statement.unplacedAll (Statement.ofSource t indent) =
      unplacedResult Statement.unplacedAll (readLines indent between)

/-- The token of the restoring tag, without a place. -/
def restoring (d : Delimiters) : List LocatedToken :=
  if d = .standard then [] else [⟨.delimiters .standard d, {}, 0, d.restoringTag⟩]

theorem restoring_cases (d : Delimiters) :
    (d = .standard ∧ restoring d = []) ∨
      (d ≠ .standard ∧ ∃ r, restoring d = [r] ∧ r.token = .delimiters .standard d) := by
  by_cases standard : d = .standard
  · exact .inl ⟨standard, if_pos standard⟩
  · exact .inr ⟨standard, _, if_neg standard, rfl⟩

theorem restored_eq (d : Delimiters) : restored d = (restoring d).map (·.content) := by
  unfold restored restoring
  split <;> rfl

/-- The lines of a text that has the tokens of complete lines behind a restoring tag. -/
theorem contents_of_tokens {t : String} {d : Delimiters} {between : List Line} (clean : (tokenize t).failure = none)
    (complete : ∀ line ∈ between, line.Complete)
    (tokens : (tokenize t).tokens.map (·.content) = restored d ++ (between.flatMap (·.tokens)).map (·.content)) :
    (layout t).lines.map (·.contents) = (linesBehind (restoring d) between).map (·.contents) := by
  have inside : ∀ r ∈ restoring d, r.token.isNewline = false := by
    rcases restoring_cases d with ⟨_, none⟩ | ⟨_, r, one, change⟩
    · simp [none]
    · simp [one, change, Token.isNewline]
  rw [restored_eq, ← List.map_append] at tokens
  have grouped := wholeLines_congr (fun _ _ same => congrArg Prod.fst same) tokens
  rw [wholeLines_behind inside complete, ← lines_of_clean clean] at grouped
  exact grouped

theorem hints_linesBehind_iff (d : Delimiters) {between : List Line} (complete : ∀ line ∈ between, line.Complete) :
    (linesBehind (restoring d) between).map (·.hints) =
      inFront ((restored d).map (·, true)) (between.map (·.hints)) ↔ KeepsFirst d between := by
  rw [restored_eq, KeepsFirst]
  rcases restoring_cases d with ⟨standard, none⟩ | ⟨other, r, one, change⟩
  · have nothing : (linesBehind [] between).map (·.hints) = inFront [] (between.map (·.hints)) := by
      cases between <;> simp [inFront]
    rw [none]
    exact iff_of_true nothing (.inl standard)
  · rw [one, or_iff_right other]
    cases between with
    | nil =>
      have alone : [(⟨[r]⟩ : Line)].map (·.hints) = [[(r.content, true)]] := by
        simp [Line.hints, Line.emits, change, Token.isTag]
      exact iff_of_true alone (by simp)
    | cons line rest =>
      have first := Line.hints_behind_iff (complete line List.mem_cons_self) change
      simpa [linesBehind, inFront, Function.comp_def] using first

theorem readLines_restored {d : Delimiters} {between : List Line} (keeps : KeepsFirst d between) (indent : String) :
    readLines indent (linesBehind (restoring d) between) = readLines indent between := by
  rcases restoring_cases d with ⟨_, none⟩ | ⟨other, r, one, change⟩
  · rw [none, linesBehind_nil]
  · rw [one, readLines_behind indent (keeps.resolve_left other) change]

/-- A fragment between anchors that stand alone has the lines between them. -/
theorem lines_of_extraction (x : Extraction source name) (opens : x.opening.1.standalone = true)
    (closes : x.closing.1.standalone = true) :
    ∃ t between, extract source name = .ok (some t) ∧ x.LinesAlike t between := by
  obtain ⟨pre, mid, post, all, active, before, inside, _, alone⟩ := x.exists_cut
  obtain ⟨clean, tokens⟩ := x.tokenize_cut all active before inside
  obtain ⟨earlier, between, later, lines, rfl⟩ := alone opens closes
  have complete : ∀ line ∈ between, line.Complete := fun line member =>
    layout_complete (by rw [lines, List.append_cons, ← List.append_assoc]) line
      (List.mem_append_right _ member)
  have same := contents_of_tokens clean complete tokens
  refine ⟨_, between, x.extract_eq, ⟨earlier, later, lines⟩, clean, ?_, ?_, ?_, ?_⟩
  · rw [same, contents_linesBehind, restored_eq]
  · rw [List.map_tail, Line.map_congr_contents Line.hints_congr same, ← List.map_tail, tail_linesBehind]
  · rw [Line.map_congr_contents Line.hints_congr same]
    exact hints_linesBehind_iff x.delimiters complete
  · intro keeps indent
    rw [ofSource_eq_readLines clean, readLines_unplaced, Line.map_congr_contents Line.unplaced_congr same,
      ← readLines_unplaced, readLines_restored keeps]

/-! The card of `cardSource`, whose first line holds more than blanks. -/

def percents : Delimiters := { opening := "<%", closing := "%>" }

def bars : Delimiters := { opening := "|", closing := "|" }

def cardBegin : LocatedToken := ⟨.tag "begin:card" .comment, ⟨2, 1⟩, 13, "<%! begin:card %>"⟩

def cardBreak : LocatedToken := ⟨.newline .crlf, ⟨2, 18⟩, 30, "\r\n"⟩

def cardEnd : LocatedToken := ⟨.tag "end:card" .comment, ⟨5, 1⟩, 70, "|! end:card |"⟩

def cardLast : LocatedToken := ⟨.newline .lf, ⟨5, 14⟩, 83, "\n"⟩

def cardHead : Line where
  tokens := [⟨.delimiters .standard percents, ⟨1, 1⟩, 0, "\x7b\x7b=<% %>=\x7d\x7d"⟩,
    ⟨.newline .crlf, ⟨1, 12⟩, 11, "\r\n"⟩]

def cardHeading : Line where
  tokens := [⟨.text "<h1>", ⟨3, 1⟩, 32, "<h1>"⟩, ⟨.tag "name" .interpolation, ⟨3, 5⟩, 36, "<% name %>"⟩,
    ⟨.delimiters percents bars, ⟨3, 15⟩, 46, "<%=| |=%>"⟩, ⟨.text "</h1>", ⟨3, 24⟩, 55, "</h1>"⟩,
    ⟨.newline .crlf, ⟨3, 29⟩, 60, "\r\n"⟩]

def cardTitle : Line where
  tokens := [⟨.tag "title" .interpolation, ⟨4, 1⟩, 62, "|title|"⟩, ⟨.newline .lf, ⟨4, 8⟩, 69, "\n"⟩]

def cardExtraction : Extraction cardSource "card" where
  before := placed [cardHead]
  opening := (⟨[cardBegin, cardBreak]⟩, cardBegin)
  between := (⟨[cardBegin, cardBreak]⟩, cardBreak) :: placed [cardHeading, cardTitle]
  closing := (⟨[cardEnd, cardLast]⟩, cardEnd)
  after := [(⟨[cardEnd, cardLast]⟩, cardLast)]
  order := by cbv
  begins := by decide
  ends := by decide
  first := by decide
  next := by decide

theorem card_lines_alike :
    (cardExtraction.opening.1.standalone = true ∧ cardExtraction.closing.1.standalone = true) ∧
      ∃ t between, extract cardSource "card" = .ok (some t) ∧ cardExtraction.LinesAlike t between :=
  ⟨by decide, lines_of_extraction cardExtraction (by decide) (by decide)⟩

/-- A fragment of one blank line, between delimiters of its own. -/
def gapSource : String := "\x7b\x7b=| |=\x7d\x7d\n|!begin:gap|\n\n|!end:gap|\n"

def gapText : String := "\x7b\x7b=| |=\x7d\x7d\n"

theorem gap_loses_line :
    extract gapSource "gap" = .ok (some gapText) ∧
      (layout gapSource).lines.map (·.standalone) = [true, true, false, true] ∧
      (layout gapText).lines.map (·.standalone) = [true] ∧
      readLines "" (((layout gapSource).lines.drop 2).take 1) = .ok [.text "\n"] ∧
      Statement.ofSource gapText "" = .ok [] :=
  ⟨by cbv, by cbv, by cbv, by cbv, by cbv⟩

end Fragment
end Mustache

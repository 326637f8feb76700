import Mustache.Proofs.SourceOrder

/-!
# Rows of lines

The lines of a source come in a row: a line break ends each of them but the last, which may go without
(`Rows`); such lines are found again in their tokens (`Rows.wholeLines_eq`). What they say depends on their
tokens alone, neither on where these stand nor on how they are written (`readLines_said`).
-/

namespace Mustache
open Text

/-! ## Tokens alone -/

def LocatedToken.bare (t : LocatedToken) : LocatedToken := ⟨t.token, {}, 0, ""⟩

@[simp] theorem LocatedToken.token_bare (t : LocatedToken) : t.bare.token = t.token := rfl

/-- The line of some tokens, without places. -/
def Line.ofTokens (tokens : List Token) : Line := ⟨tokens.map fun token => ⟨token, {}, 0, ""⟩⟩

namespace Line

theorem said_ofTokens (tokens : List Token) : (ofTokens tokens).said = tokens := by
  simp [said, ofTokens, Function.comp_def]

theorem ofTokens_said (line : Line) : ofTokens line.said = ⟨line.tokens.map (·.bare)⟩ := by
  simp [ofTokens, said, LocatedToken.bare, Function.comp_def]

end Line

theorem Outline.readLine_unplaced_eq (indent : String) (o : Outline) (line : Line) :
    o.readLine indent line.unplaced = o.readLine indent (.ofTokens line.said) := by
  have said : line.unplaced.said = (Line.ofTokens line.said).said := by
    rw [Line.said_ofTokens, Line.unplaced, Line.said_map LocatedToken.token_unplaced]
  have alone := Line.standalone_of_said said
  have one (o : Outline) (t : LocatedToken) :
      readToken indent line.unplaced o t.unplaced = readToken indent (.ofTokens line.said) o t.bare := by
    rw [readToken_congr alone fun _ => congrArg (indent ++ ·) (Line.indent_of_said said)]
    rfl
  have emitted : (Line.ofTokens line.said).emitted = line.emitted.map (·.bare) := by
    rw [line.ofTokens_said, Line.emitted_map LocatedToken.token_bare]
  rw [readLine, readLine, Line.emitted_unplaced, emitted, alone, List.foldlM_map, List.foldlM_map]
  simp only [one]

/-- What lines say, without positions, is what their tokens alone say. -/
theorem readLines_said (indent : String) (lines : List Line) :
    unplacedResult Statement.unplacedAll (readLines indent lines) =
      readLines indent (lines.map fun line => .ofTokens line.said) := by
  rw [readLines_unplaced, readLines, readLines, List.foldlM_map, List.foldlM_map]
  simp only [Outline.readLine_unplaced_eq]

/-- Where one of two results that differ in positions only is there, the other is. -/
theorem ok_of_unplacedResult {x y : Except Fault (List Statement)} {stmts : List Statement}
    (same : unplacedResult Statement.unplacedAll x = unplacedResult Statement.unplacedAll y) (read : y = .ok stmts) :
    ∃ stmts', x = .ok stmts' ∧ Statement.unplacedAll stmts' = Statement.unplacedAll stmts := by
  rw [read] at same
  cases x with
  | ok stmts' => exact ⟨stmts', rfl, Except.ok.inj same⟩
  | error fault => cases same

/-- Where a text ends at once, nothing is taken. -/
theorem spanText_of_ends {opening cs : List Char} (ends : Lexeme.endsText opening cs = true) :
    Lexeme.spanText opening cs = ([], cs) := by
  cases cs with
  | nil => rfl
  | cons c rest => rw [Lexeme.spanText, if_pos ends]

/-! ## Lines in a row -/

/-- A line break ends every line but the last, which may go without. -/
inductive Rows : List Line → Prop where
  | nil : Rows []
  | unfinished {line : Line} (filled : line.tokens ≠ []) (within : ∀ t ∈ line.tokens, t.token.isNewline = false) :
    Rows [line]
  | cons {line : Line} {rest : List Line} (complete : line.Complete) (others : Rows rest) : Rows (line :: rest)

theorem Line.Complete.ne_nil {line : Line} (complete : line.Complete) : line.tokens ≠ [] := by
  obtain ⟨front, last, tokens, _⟩ := complete
  simp [tokens]

namespace Rows

variable {lines : List Line}

theorem append {front : List Line} (complete : ∀ line ∈ front, line.Complete) (rows : Rows lines) :
    Rows (front ++ lines) := by
  induction front with
  | nil => exact rows
  | cons line rest ih =>
    obtain ⟨first, others⟩ := List.forall_mem_cons.mp complete
    exact .cons first (ih others)

theorem of_tokens (tokens : List LocatedToken) : Rows (wholeLines tokens) := by
  refine append (groupLines_complete tokens) ?_
  by_cases finished : (groupLines tokens).2 = []
  · simp only [finished, List.isEmpty_nil, if_true]
    exact .nil
  · rw [if_neg (by simpa using finished)]
    exact .unfinished finished (groupLines_unfinished tokens)

/-- Lines in a row are the lines of their tokens. -/
theorem wholeLines_eq (rows : Rows lines) : wholeLines (lines.flatMap (·.tokens)) = lines := by
  induction rows with
  | nil => rfl
  | @unfinished line filled within =>
    rw [List.flatMap_singleton, wholeLines, groupLines_within within]
    simp [filled]
  | @cons line rest complete others ih =>
    rw [List.flatMap_cons, wholeLines, groupLines_line complete, List.cons_append, ← wholeLines, ih]

theorem filled (rows : Rows lines) : ∀ line ∈ lines, line.tokens ≠ [] := by
  induction rows with
  | nil => exact List.forall_mem_nil _
  | unfinished filled _ => exact List.forall_mem_singleton.mpr filled
  | cons complete _ ih => exact List.forall_mem_cons.mpr ⟨complete.ne_nil, ih⟩

end Rows

theorem rows_of_clean {source : String} (clean : (layout source).failure = none) : Rows (layout source).lines := by
  rw [lines_of_clean clean]
  exact Rows.of_tokens _

end Mustache

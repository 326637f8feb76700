import Mustache.Proofs.LineEndings
import Mustache.Proofs.Origins

/-!
# Sources with converted line endings

A source in which every line feed has a carriage return before it has the lines of the source: the same ones stand
alone and contribute to the output. Its fragments are the converted fragments of the source (`Fragment.extract_crlf`),
and its statements those of the source with converted texts (`Statement.ofSource_crlf`).
-/

namespace Mustache
open Text

/-! ## Places -/

namespace Text

section

variable {source before after : List Char} {m n : Nat}

/-- An offset at which a character begins, or the text ends. -/
def AtCharacter (source : List Char) (n : Nat) : Prop := ∃ before after, source = before ++ after ∧ n = bytes before

theorem takeBytes_append_of_le (far : bytes before ≤ n) (after : List Char) :
    takeBytes n (before ++ after) = before ++ takeBytes (n - bytes before) after := by
  induction before generalizing n with
  | nil => simp [bytes]
  | cons c r ih =>
    have filled := c.utf8Size_pos
    rw [bytes] at far
    rw [List.cons_append, takeBytes, if_neg (by omega), ih (by omega), bytes, Nat.sub_add_eq]
    rfl

theorem takeBytes_append_of_ge (near : n ≤ bytes before) (after : List Char) :
    takeBytes n (before ++ after) = takeBytes n before := by
  induction before generalizing n with
  | nil =>
    obtain rfl : n = 0 := by simpa [bytes] using near
    cases after <;> rfl
  | cons c r ih =>
    rw [bytes] at near
    rw [List.cons_append, takeBytes, takeBytes]
    split
    · rfl
    · rw [ih (by omega)]

theorem takeBytes_subset (n : Nat) (cs : List Char) : takeBytes n cs ⊆ cs := by
  have whole := takeBytes_append_dropBytes n cs
  exact fun c member => whole ▸ List.mem_append_left _ member

theorem dropBytes_subset (n : Nat) (cs : List Char) : dropBytes n cs ⊆ cs := by
  have whole := takeBytes_append_dropBytes n cs
  exact fun c member => whole ▸ List.mem_append_right _ member

theorem slice_subset (cs : List Char) (m n : Nat) : slice cs m n ⊆ cs :=
  fun _ member => dropBytes_subset m cs (takeBytes_subset _ _ member)

/-- A part of a text is converted with the text. -/
theorem slice_crlf (place : AtCharacter source m) (n : Nat) :
    slice (crlf source) (crlfOffset source m) (crlfOffset source n) = crlf (slice source m n) := by
  obtain ⟨before, after, rfl, rfl⟩ := place
  rw [crlfOffset_append, slice, slice, crlf_append, dropBytes_append, dropBytes_append]
  by_cases far : bytes before ≤ n
  · have split := takeBytes_append_dropBytes (n - bytes before) after
    have later : crlfOffset (before ++ after) n =
        bytes (crlf before) + bytes (crlf (takeBytes (n - bytes before) after)) := by
      rw [crlfOffset, takeBytes_append_of_le far, crlf_append, bytes_append]
    have cut : crlf after = crlf (takeBytes (n - bytes before) after) ++ crlf (dropBytes (n - bytes before) after) := by
      rw [← crlf_append, split]
    rw [later, Nat.add_sub_cancel_left, cut, takeBytes_append]
  · have near : n ≤ bytes before := by omega
    have nothing : n - bytes before = 0 := by omega
    have earlier : crlfOffset (before ++ after) n ≤ bytes (crlf before) := by
      have split := takeBytes_append_dropBytes n before
      have cut := congrArg (fun cs => bytes (crlf cs)) split
      simp only [crlf_append, bytes_append] at cut
      rw [crlfOffset, takeBytes_append_of_ge near]
      omega
    have none_left (cs : List Char) : takeBytes 0 cs = [] := by cases cs <;> rfl
    rw [nothing, Nat.sub_eq_zero_of_le earlier, none_left, none_left, crlf_nil]

end

end Text

/-! ## Lines -/

def Line.crlf (source : List Char) (line : Line) : Line := ⟨line.tokens.map (·.crlf source)⟩

section

variable {source : List Char} {line : Line} {t : LocatedToken}

@[simp] theorem Token.isTag_crlf (token : Token) : token.crlf.isTag = token.isTag := by cases token <;> rfl

@[simp] theorem Token.isNewline_crlf (token : Token) : token.crlf.isNewline = token.isNewline := by cases token <;> rfl

theorem groupLines_crlf (source : List Char) (tokens : List LocatedToken) :
    groupLines (tokens.map (·.crlf source)) =
      ((groupLines tokens).1.map (·.crlf source), (groupLines tokens).2.map (·.crlf source)) := by
  induction tokens with
  | nil => rfl
  | cons t r ih =>
    have same : (t.crlf source).token.isNewline = t.token.isNewline := t.token.isNewline_crlf
    rw [List.map_cons, groupLines, groupLines, same, ih]
    split
    · rfl
    · obtain ⟨lines, unfinished⟩ := groupLines r
      cases lines <;> rfl

namespace Line

theorem role_crlf (token : Token) : role token.crlf = role token := by
  cases token with
  | text content =>
    have same : (Token.text (crlfText content)).isBlank = (Token.text content).isBlank := by
      rw [Token.isBlank, toList_crlfText, all_crlf]
      rfl
    rw [Token.crlf, role, role, same]
  | _ => rfl

theorem standalone_crlf (source : List Char) (line : Line) : (line.crlf source).standalone = line.standalone := by
  have roles : (line.crlf source).tokens.map (role ·.token) = line.tokens.map (role ·.token) := by
    rw [crlf, List.map_map]
    exact List.map_congr_left fun t _ => role_crlf t.token
  rw [standalone, standalone, roles]

theorem emitted_crlf (source : List Char) (line : Line) :
    (line.crlf source).emitted = line.emitted.map (·.crlf source) := by
  rw [emitted, crlf, List.filter_map]
  congr 1
  refine List.filter_congr fun t _ => ?_
  rw [Function.comp_apply, emits, emits, ← crlf, standalone_crlf]
  congr 1
  exact t.token.isTag_crlf

theorem indent_crlf (source : List Char) (line : Line) : (line.crlf source).indent = crlfText line.indent := by
  rw [indent, indent, standalone_crlf]
  cases line.standalone with
  | false => rfl
  | true =>
    obtain ⟨tokens⟩ := line
    cases tokens with
    | nil => rfl
    | cons t rest =>
      obtain ⟨token, _, _, _⟩ := t
      cases token <;> rfl

theorem start_crlf (source : List Char) (line : Line) : (line.crlf source).start = crlfOffset source line.start := by
  have first : crlfOffset source 0 = 0 := by
    cases source <;> rfl
  obtain ⟨tokens⟩ := line
  cases tokens with
  | nil => exact first.symm
  | cons t rest => rfl

theorem stop_crlf (within : ∀ t ∈ line.tokens, t.In source) : (line.crlf source).stop = crlfOffset source line.stop := by
  have first : crlfOffset source 0 = 0 := by
    cases source <;> rfl
  rw [stop, stop, crlf, List.getLast?_map]
  cases last : line.tokens.getLast? with
  | none => exact first.symm
  | some t => exact (within t (List.mem_of_getLast? last)).stop_crlf

end Line

theorem lines_crlf {source : String} (no_return : '\r' ∉ source.toList) :
    (layout (crlfText source)).lines = (layout source).lines.map (·.crlf source.toList) := by
  obtain ⟨tokens, failure⟩ := tokenize_crlf no_return
  simp only [layout, tokens, failure, groupLines_crlf, Option.isSome_map, List.map_append]
  congr 1
  have left (unfinished : List LocatedToken) : (unfinished.map (·.crlf source.toList)).isEmpty = unfinished.isEmpty := by
    cases unfinished <;> rfl
  rw [left]
  split <;> rfl

theorem failure_crlf {source : String} (no_return : '\r' ∉ source.toList) :
    (layout (crlfText source)).failure = (layout source).failure.map SyntaxError.crlf := (tokenize_crlf no_return).2

theorem mem_tokens_of_line {source : String} {line : Line} {t : LocatedToken} (member : line ∈ (layout source).lines)
    (inside : t ∈ line.tokens) : t ∈ (tokenize source).tokens := by
  obtain ⟨unfinished, all⟩ := Fragment.Extraction.tokens_of_layout source
  rw [all]
  exact List.mem_append_left _ (List.mem_flatMap.mpr ⟨line, member, inside⟩)

/-- Every token of a line stands in the source. -/
theorem in_source_of_line {source : String} {line : Line} (member : line ∈ (layout source).lines) :
    ∀ t ∈ line.tokens, t.In source.toList :=
  fun t inside => tokens_in_source source t (mem_tokens_of_line member inside)

end

/-! ## Fragments -/

namespace Fragment

def Opening.crlf (source : List Char) (o : Opening) : Opening := { o with offset := crlfOffset source o.offset }

/-- A token of a line, both with the texts converted. -/
def crlfItem (source : List Char) (item : Line × LocatedToken) : Line × LocatedToken :=
  (item.1.crlf source, item.2.crlf source)

/-- A token and its line stand in a text. -/
def ItemIn (source : List Char) (item : Line × LocatedToken) : Prop :=
  item.2.In source ∧ ∀ t ∈ item.1.tokens, t.In source

section

variable {source : List Char} {name anchor : String} {item : Line × LocatedToken} {items : List (Line × LocatedToken)}
  {opened : Option Opening} {o : Opening}

theorem isAnchor_crlf (inLine : '\n' ∉ anchor.toList) (item : Line × LocatedToken) :
    IsAnchor anchor (crlfItem source item) ↔ IsAnchor anchor item := by
  have converted : (crlfItem source item).2.token = item.2.token.crlf := rfl
  rw [IsAnchor, IsAnchor, converted]
  cases item.2.token with
  | tag body kind =>
    by_cases comment : kind = .comment
    · subst comment
      have same : crlfText body = anchor ↔ body = anchor := by
        rw [← String.toList_inj, ← String.toList_inj, toList_crlfText, crlf_eq_iff inLine]
      simpa [Token.crlf] using same
    · simp [Token.crlf, comment]
  | _ => simp [Token.crlf]

theorem startBehind_crlf (within : ItemIn source item) :
    startBehind (crlfItem source item) = crlfOffset source (startBehind item) := by
  rw [startBehind, startBehind, crlfItem, Line.standalone_crlf, Line.stop_crlf within.2, within.1.stop_crlf]
  split <;> rfl

theorem stopBefore_crlf (source : List Char) (item : Line × LocatedToken) :
    stopBefore (crlfItem source item) = crlfOffset source (stopBefore item) := by
  rw [stopBefore, stopBefore, crlfItem, Line.standalone_crlf, Line.start_crlf]
  split <;> rfl

theorem atCharacter_stop {t : LocatedToken} (within : t.In source) : AtCharacter source t.stop := by
  obtain ⟨before, after, rfl, start⟩ := within
  exact ⟨before ++ t.raw.toList, after, by rw [List.append_assoc], by rw [LocatedToken.stop, start, bytes_append]⟩

theorem atCharacter_startBehind (within : ItemIn source item) : AtCharacter source (startBehind item) := by
  unfold startBehind
  split
  · unfold Line.stop
    cases last : item.1.tokens.getLast? with
    | none => exact ⟨[], source, rfl, rfl⟩
    | some t => exact atCharacter_stop (within.2 t (List.mem_of_getLast? last))
  · exact atCharacter_stop within.1

theorem oneLine_restoringTag (d : Delimiters) : OneLine d.restoringTag.toList := by
  have opening := oneLine_of_validMarker d.opening_valid
  have closing := oneLine_of_validMarker d.closing_valid
  simp only [OneLine, Delimiters.restoringTag, Delimiters.describe, String.toList_append, List.mem_append, not_or]
  refine ⟨⟨⟨by decide, ⟨opening.1, by decide⟩, closing.1⟩, by decide⟩, ⟨⟨by decide, ⟨opening.2, by decide⟩, closing.2⟩,
    by decide⟩⟩

theorem cut_crlf (place : AtCharacter source o.offset) (stop : Nat) :
    cut (Text.crlf source) (o.crlf source) (crlfOffset source stop) = crlfText (cut source o stop) := by
  have part : String.ofList (slice (Text.crlf source) (crlfOffset source o.offset) (crlfOffset source stop)) =
      crlfText (String.ofList (slice source o.offset stop)) := by rw [slice_crlf place, crlfText_ofList]
  have kept : crlfText o.delimiters.restoringTag = o.delimiters.restoringTag :=
    crlfText_of_notMem (oneLine_restoringTag _).2
  simp only [cut, Opening.crlf, part]
  split
  · rfl
  · rw [crlfText_append, kept]

theorem notMem_cut (no_return : '\r' ∉ source) (o : Opening) (stop : Nat) : '\r' ∉ (cut source o stop).toList := by
  have part : '\r' ∉ slice source o.offset stop := fun member => no_return (slice_subset _ _ _ member)
  unfold cut
  split
  · simpa using part
  · rw [String.toList_append, String.toList_ofList, List.mem_append, not_or]
    exact ⟨(oneLine_restoringTag _).1, part⟩

/-- A search for a fragment in converted text finds what the search in the text finds. -/
theorem search_crlf (inLine : '\n' ∉ name.toList) (within : ∀ item ∈ items, ItemIn source item)
    (place : ∀ o ∈ opened, AtCharacter source o.offset) (active : Delimiters) :
    search (Text.crlf source) name active (opened.map (·.crlf source)) (items.map (crlfItem source)) =
      recast (Option.map crlfText) SyntaxError.crlf (search source name active opened items) := by
  have begin_inLine : '\n' ∉ (beginAnchor name).toList := by
    rw [beginAnchor, String.toList_append, List.mem_append, not_or]
    exact ⟨by decide, inLine⟩
  have end_inLine : '\n' ∉ (endAnchor name).toList := by
    rw [endAnchor, String.toList_append, List.mem_append, not_or]
    exact ⟨by decide, inLine⟩
  -- What has been opened lies behind, so its place goes along with the induction on what is ahead.
  induction items generalizing active opened with
  | nil => rfl
  | cons item rest ih =>
    obtain ⟨here, others⟩ := List.forall_mem_cons.mp within
    rw [List.map_cons]
    by_cases begins : IsAnchor (beginAnchor name) item
    · rw [search_begin begins, search_begin ((isAnchor_crlf begin_inLine item).mpr begins), Option.isSome_map]
      split
      · rfl
      · have place' : ∀ o ∈ some (⟨startBehind item, active⟩ : Opening), AtCharacter source o.offset :=
          fun o found => Option.some.inj found ▸ atCharacter_startBehind here
        rw [startBehind_crlf here]
        exact ih others place' active
    · have begins' : ¬ IsAnchor (beginAnchor name) (crlfItem source item) := by rwa [isAnchor_crlf begin_inLine]
      by_cases ends : IsAnchor (endAnchor name) item
      · rw [search_end ends, search_end ((isAnchor_crlf end_inLine item).mpr ends)]
        cases opened with
        | none => exact ih others place active
        | some o =>
          rw [Option.map_some, stopBefore_crlf]
          dsimp only
          rw [cut_crlf (place o rfl)]
          rfl
      · rw [search_other begins ends, search_other begins' (mt (isAnchor_crlf end_inLine item).mp ends)]
        have same : activeAfter active [(crlfItem source item).2] = activeAfter active [item.2] := by
          have converted : (crlfItem source item).2.token = item.2.token.crlf := rfl
          simp only [activeAfter, List.foldl_cons, List.foldl_nil, converted]
          cases item.2.token <;> rfl
        rw [same]
        exact ih others place _

end

/-- The fragments of a converted source are the converted fragments of the source. -/
theorem extract_crlf {source name : String} (no_return : '\r' ∉ source.toList) (inLine : '\n' ∉ name.toList) :
    extract (crlfText source) name = recast (Option.map crlfText) SyntaxError.crlf (extract source name) := by
  have within : ∀ item ∈ placed (layout source).lines, ItemIn source.toList item := by
    intro item member
    obtain ⟨line, inLines, listed⟩ := List.mem_flatMap.mp member
    obtain ⟨t, inside, rfl⟩ := List.mem_map.mp listed
    have all := in_source_of_line inLines
    exact ⟨all t inside, all⟩
  have items : placed (layout (crlfText source)).lines = (placed (layout source).lines).map (crlfItem source.toList) := by
    simp only [placed, lines_crlf no_return, List.flatMap_map, List.map_flatMap, Line.crlf, List.map_map]
    rfl
  have unopened : ∀ o ∈ (none : Option Opening), AtCharacter source.toList o.offset := fun _ member => by cases member
  have searched := search_crlf inLine within unopened .standard
  unfold extract
  dsimp only
  rw [← placed, ← placed, items, toList_crlfText, failure_crlf no_return]
  rw [Option.map_none] at searched
  rw [searched]
  cases search source.toList name .standard none (placed (layout source).lines) with
  | error e => rfl
  | ok found =>
    cases found with
    | some text => rfl
    | none => cases (layout source).failure <;> rfl

/-- A fragment has no carriage return that its source does not have. -/
theorem notMem_extract {source name text : String} (no_return : '\r' ∉ source.toList)
    (extracted : extract source name = .ok (some text)) : '\r' ∉ text.toList := by
  obtain ⟨x, rfl⟩ := exists_extraction extracted
  exact notMem_cut no_return _ _

end Fragment

/-! ## Statements -/

section

variable {source : String} {line : Line} {t : LocatedToken} {lineBreak : LineBreak}

/-- Without carriage returns every line break is a line feed. -/
theorem lineBreak_eq_lf (no_return : '\r' ∉ source.toList) (member : t ∈ (tokenize source).tokens)
    (breaks : t.token = .newline lineBreak) : lineBreak = .lf := by
  obtain ⟨before, after, cut⟩ := List.append_of_mem member
  have written := (recognised_at cut).written
  obtain ⟨front, behind, whole, _⟩ := tokens_in_source source t member
  rw [whole] at no_return
  rw [breaks] at written
  generalize t.raw.toList = raw at written no_return
  cases written
  cases lineBreak with
  | lf => rfl
  | crlf => exact absurd (by simp [LineBreak.text]) no_return

theorem turns_crlf (no_return : '\r' ∉ source.toList) (member : t ∈ (tokenize source).tokens) :
    Change.crlf.Turns t.token t.token.crlf := by
  cases token : t.token with
  | text content => exact .text
  | newline lineBreak =>
    obtain rfl := lineBreak_eq_lf no_return member token
    exact .newline rfl
  | delimiters previous next => exact .delimiters
  | tag name kind =>
    by_cases comment : kind = .comment
    · subst comment
      exact .comment
    · rw [Token.crlf, if_neg comment]
      exact .tag

theorem turnsLine_crlf (no_return : '\r' ∉ source.toList) (member : line ∈ (layout source).lines) :
    Change.crlf.TurnsLine (·.crlf source.toList) line (line.crlf source.toList) where
  standalone := line.standalone_crlf source.toList
  indent := line.indent_crlf source.toList
  emitted := line.emitted_crlf source.toList
  turns _ inside := turns_crlf no_return (mem_tokens_of_line member (List.mem_of_mem_filter inside))
  place _ _ := rfl

/-- The statements of a converted source are those of the source, with converted texts. -/
theorem Statement.ofSource_crlf (no_return : '\r' ∉ source.toList) (indent : String) :
    ofSource (crlfText source) (crlfText indent) =
      recast (changeAll .crlf) (Fault.change .crlf) (ofSource source indent) :=
  ofSource_change (lines_crlf no_return) (failure_crlf no_return) (fun _ member => turnsLine_crlf no_return member) indent

end

end Mustache

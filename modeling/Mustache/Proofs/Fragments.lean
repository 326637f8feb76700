import Mathlib
import Mustache.Fragment
import Mustache.Proofs.Locality

/-!
# Fragments are read as in their source

A fragment is a run of whole tokens of its source (`Extraction.exists_cut`), behind a tag that restores the
delimiters in force there. Read by itself it has the same tokens, written in the same way
(`tokenize_extract`).
-/

namespace Mustache
open Text

/-! ## Restored delimiters -/

namespace Text

theorem split_eq_singleton {stop : Char → Bool} {cs : List Char} (none : ∀ c ∈ cs, stop c = false) :
    split stop cs = [cs] := by
  induction cs with
  | nil => rfl
  | cons c r ih =>
    obtain ⟨first, others⟩ := List.forall_mem_cons.mp none
    simp [split, first, ih others]

theorem split_append_cons {stop : Char → Bool} {a : List Char} {c : Char} (none : ∀ x ∈ a, stop x = false)
    (stops : stop c = true) (b : List Char) : split stop (a ++ c :: b) = a :: split stop b := by
  induction a with
  | nil => simp [split, stops]
  | cons x r ih =>
    obtain ⟨first, others⟩ := List.forall_mem_cons.mp none
    simp [split, first, ih others]

/-- A pattern is found behind a text without its first character. -/
theorem breakOn_of_notMem {p : Char} {cs : List Char} (none : p ∉ cs) (ps r : List Char) :
    breakOn (p :: ps) (cs ++ (p :: ps ++ r)) = some (cs, r) := by
  induction cs with
  | nil => simp [breakOn, isPrefixOf?_cons, isPrefixOf?_append]
  | cons c rest ih =>
    obtain ⟨other, later⟩ : p ≠ c ∧ p ∉ rest := by simpa using none
    simp only [List.cons_append] at ih ⊢
    simp [breakOn, isPrefixOf?_cons, other, ih later]

end Text

namespace Delimiters

theorem words_markers (d : Delimiters) :
    words (d.opening.toList ++ ' ' :: d.closing.toList) = [d.opening.toList, d.closing.toList] := by
  have opening_whole : ∀ c ∈ d.opening.toList, isBlank c = false := fun c member => (d.opening_valid.2 c member).1
  have closing_whole : ∀ c ∈ d.closing.toList, isBlank c = false := fun c member => (d.closing_valid.2 c member).1
  have space : isBlank ' ' = true := by decide
  rw [words, split_append_cons opening_whole space, split_eq_singleton closing_whole]
  simp [d.opening_valid.1, d.closing_valid.1]

theorem read?_markers (d : Delimiters) : read? (d.opening.toList ++ ' ' :: d.closing.toList) = some d := by
  simp [read?, words_markers, make?_self]

/-- The tag, written with a pair, after which another pair is in force. -/
def changeTag (d next : Delimiters) : List Char :=
  d.opening.toList ++ '=' :: (next.opening.toList ++ ' ' :: next.closing.toList) ++ Lexeme.changeEnd d

/-- A tag that changes a pair is read back as that change. -/
theorem lexeme_changeTag (d next : Delimiters) (p : Position) (r : List Char) :
    lexeme d p (d.changeTag next ++ r) = .ok ⟨.delimiters d next, d.changeTag next, r⟩ := by
  have significant : isBlank '=' = false := by decide
  have no_equals : '=' ∉ next.opening.toList ++ ' ' :: next.closing.toList := by
    have opening : '=' ∉ next.opening.toList := fun member => (next.opening_valid.2 '=' member).2 rfl
    have closing : '=' ∉ next.closing.toList := fun member => (next.closing_valid.2 '=' member).2 rfl
    simp [opening, closing]
  have found := breakOn_of_notMem no_equals d.closing.toList r
  rw [changeTag, List.append_assoc, List.append_assoc, lexeme, lineBreak?_opening, isPrefixOf?_append]
  simp only [Lexeme.tag, List.cons_append, List.takeWhile_cons, List.dropWhile_cons, significant,
    Bool.false_eq_true, if_false]
  rw [Lexeme.delimiterTag, Lexeme.changeEnd, ← List.cons_append, found]
  simp only [read?_markers]
  simp

theorem toList_restoringTag (d : Delimiters) : d.restoringTag.toList = standard.changeTag d := by
  simp [restoringTag, describe, standard, changeTag, Lexeme.changeEnd]

/-- The tag that restores a pair is read back as a change to that pair. -/
theorem lexeme_restoringTag (d : Delimiters) (p : Position) (r : List Char) :
    lexeme .standard p (d.restoringTag.toList ++ r) =
      .ok ⟨.delimiters .standard d, d.restoringTag.toList, r⟩ := by
  rw [toList_restoringTag]
  exact lexeme_changeTag standard d p r

end Delimiters

theorem activeAfter_append (d : Delimiters) (a b : List LocatedToken) :
    activeAfter d (a ++ b) = activeAfter (activeAfter d a) b := List.foldl_append

theorem activeAfter_tag (d : Delimiters) {t : LocatedToken} {name : String} {kind : TagKind}
    (tag : t.token = .tag name kind) : activeAfter d [t] = d := by
  rw [activeAfter, List.foldl_cons, List.foldl_nil, tag]

/-- Tokens none of which changes the delimiters. -/
theorem activeAfter_eq (d : Delimiters) {tokens : List LocatedToken}
    (none : ∀ t ∈ tokens, ∀ previous next, t.token ≠ .delimiters previous next) : activeAfter d tokens = d := by
  induction tokens with
  | nil => rfl
  | cons t rest ih =>
    obtain ⟨first, others⟩ := List.forall_mem_cons.mp none
    rw [activeAfter, List.foldl_cons]
    cases kind : t.token with
    | delimiters previous next => exact absurd kind (first previous next)
    | _ => exact ih others

/-! ## Where a fragment is -/

/-- The tokens of some lines in order, each with its line. -/
def placed (lines : List Line) : List (Line × LocatedToken) := lines.flatMap fun line => line.tokens.map (line, ·)

namespace Fragment

/-- A comment that is an anchor. -/
def IsAnchor (anchor : String) (item : Line × LocatedToken) : Prop := item.2.token = .tag anchor .comment

instance (anchor : String) (item : Line × LocatedToken) : Decidable (IsAnchor anchor item) :=
  inferInstanceAs (Decidable (_ = _))

/-- Where a fragment starts behind its begin anchor: behind the whole line if that stands alone. -/
def startBehind (item : Line × LocatedToken) : Nat := if item.1.standalone then item.1.stop else item.2.stop

/-- Where a fragment stops before its end anchor: before the whole line if that stands alone. -/
def stopBefore (item : Line × LocatedToken) : Nat := if item.1.standalone then item.1.start else item.2.start

/-- A fragment in its source: the first begin anchor, and the first end anchor behind it, with no other begin
anchor before the end. -/
structure Extraction (source name : String) where
  before : List (Line × LocatedToken)
  opening : Line × LocatedToken
  between : List (Line × LocatedToken)
  closing : Line × LocatedToken
  after : List (Line × LocatedToken)
  order : placed (layout source).lines = before ++ opening :: (between ++ closing :: after)
  begins : IsAnchor (beginAnchor name) opening
  ends : IsAnchor (endAnchor name) closing
  first : ∀ item ∈ before, ¬ IsAnchor (beginAnchor name) item
  next : ∀ item ∈ between, ¬ IsAnchor (beginAnchor name) item ∧ ¬ IsAnchor (endAnchor name) item

namespace Extraction

variable {source name : String}

def start (x : Extraction source name) : Nat := startBehind x.opening

def stop (x : Extraction source name) : Nat := stopBefore x.closing

/-- The delimiters in force at the begin anchor. -/
def delimiters (x : Extraction source name) : Delimiters := activeAfter .standard (x.before.map (·.2))

end Extraction

section

variable {src : List Char} {name t : String} {active : Delimiters} {opened : Option Opening}
  {item : Line × LocatedToken} {rest items : List (Line × LocatedToken)}

theorem beginAnchor_ne_endAnchor (name : String) : beginAnchor name ≠ endAnchor name := by
  intro same
  simpa [beginAnchor, endAnchor] using congrArg String.toList same

theorem search_begin (begins : IsAnchor (beginAnchor name) item) :
    search src name active opened (item :: rest) =
      if opened.isSome then .error (.nestedFragment item.2.position name)
      else search src name active (some ⟨startBehind item, active⟩) rest := by
  obtain ⟨line, token⟩ := item
  replace begins : token.token = .tag (beginAnchor name) .comment := begins
  simp [search, begins, startBehind]

theorem search_end (ends : IsAnchor (endAnchor name) item) :
    search src name active opened (item :: rest) =
      match opened with
      | none => search src name active none rest
      | some o => .ok (some (cut src o (stopBefore item))) := by
  obtain ⟨line, token⟩ := item
  replace ends : token.token = .tag (endAnchor name) .comment := ends
  cases opened <;> simp [search, ends, stopBefore, (beginAnchor_ne_endAnchor name).symm]

theorem search_other (no_begin : ¬ IsAnchor (beginAnchor name) item) (no_end : ¬ IsAnchor (endAnchor name) item) :
    search src name active opened (item :: rest) =
      search src name (activeAfter active [item.2]) opened rest := by
  obtain ⟨line, token⟩ := item
  replace no_begin : token.token ≠ .tag (beginAnchor name) .comment := no_begin
  replace no_end : token.token ≠ .tag (endAnchor name) .comment := no_end
  simp only [search]
  cases kind : token.token with
  | text content => simp [activeAfter, kind]
  | newline lineBreak => simp [activeAfter, kind]
  | delimiters previous next => simp [activeAfter, kind]
  | tag body tagKind => cases tagKind <;> simp_all [activeAfter]

/-- What a search has found once the fragment has begun. -/
theorem search_opened {o : Opening} (found : search src name active (some o) items = .ok (some t)) :
    ∃ between closing after, items = between ++ closing :: after ∧ IsAnchor (endAnchor name) closing ∧
      (∀ item ∈ between, ¬ IsAnchor (beginAnchor name) item ∧ ¬ IsAnchor (endAnchor name) item) ∧
      t = cut src o (stopBefore closing) := by
  induction items generalizing active with
  | nil => cases found
  | cons item rest ih =>
    by_cases begins : IsAnchor (beginAnchor name) item
    · rw [search_begin begins] at found
      cases found
    · by_cases ends : IsAnchor (endAnchor name) item
      · rw [search_end ends] at found
        exact ⟨[], item, rest, rfl, ends, nofun, (Option.some.inj (Except.ok.inj found)).symm⟩
      · rw [search_other begins ends] at found
        obtain ⟨between, closing, after, rfl, is_end, others, same⟩ := ih found
        exact ⟨item :: between, closing, after, rfl, is_end, List.forall_mem_cons.mpr ⟨⟨begins, ends⟩, others⟩, same⟩

/-- What a search has found from the beginning on. -/
theorem search_some (found : search src name active none items = .ok (some t)) :
    ∃ before opening between closing after, items = before ++ opening :: (between ++ closing :: after) ∧
      IsAnchor (beginAnchor name) opening ∧ IsAnchor (endAnchor name) closing ∧
      (∀ item ∈ before, ¬ IsAnchor (beginAnchor name) item) ∧
      (∀ item ∈ between, ¬ IsAnchor (beginAnchor name) item ∧ ¬ IsAnchor (endAnchor name) item) ∧
      t = cut src ⟨startBehind opening, activeAfter active (before.map (·.2))⟩ (stopBefore closing) := by
  induction items generalizing active with
  | nil => cases found
  | cons item rest ih =>
    by_cases begins : IsAnchor (beginAnchor name) item
    · rw [search_begin begins] at found
      obtain ⟨between, closing, after, rfl, ends, others, same⟩ := search_opened found
      exact ⟨[], item, between, closing, after, rfl, begins, ends, nofun, others, same⟩
    · -- An end anchor that stands alone changes as little as any other token.
      have goes_on : search src name (activeAfter active [item.2]) none rest = .ok (some t) := by
        by_cases ends : IsAnchor (endAnchor name) item
        · rw [search_end ends] at found
          rwa [activeAfter_tag _ ends]
        · rwa [search_other begins ends] at found
      obtain ⟨before, opening, between, closing, after, rfl, is_begin, is_end, firsts, others, same⟩ := ih goes_on
      exact ⟨item :: before, opening, between, closing, after, rfl, is_begin, is_end,
        List.forall_mem_cons.mpr ⟨begins, firsts⟩, others, same⟩

end

/-- A fragment that is found is cut out between its anchors. -/
theorem exists_extraction {source name t : String} (extracted : extract source name = .ok (some t)) :
    ∃ x : Extraction source name, t = cut source.toList ⟨x.start, x.delimiters⟩ x.stop := by
  unfold extract at extracted
  dsimp only at extracted
  split at extracted
  · split at extracted <;> cases extracted
  · obtain ⟨before, opening, between, closing, after, order, begins, ends, first, next, same⟩ := search_some extracted
    exact ⟨⟨before, opening, between, closing, after, order, begins, ends, first, next⟩, same⟩

/-- A search comes to the first begin anchor, with the delimiters in force there. -/
theorem search_before {src : List Char} {name : String} {active : Delimiters} {before : List (Line × LocatedToken)}
    (no_anchor : ∀ item ∈ before, ¬ IsAnchor (beginAnchor name) item) (rest : List (Line × LocatedToken)) :
    search src name active none (before ++ rest) =
      search src name (activeAfter active (before.map (·.2))) none rest := by
  induction before generalizing active with
  | nil => rfl
  | cons item before ih =>
    obtain ⟨first, others⟩ := List.forall_mem_cons.mp no_anchor
    have step : search src name active none (item :: (before ++ rest)) =
        search src name (activeAfter active [item.2]) none (before ++ rest) := by
      by_cases ends : IsAnchor (endAnchor name) item
      · rw [search_end ends, activeAfter_tag _ ends]
      · exact search_other first ends
    rw [List.cons_append, step, ih others, ← activeAfter_append]
    rfl

/-- A search comes to the next anchor. -/
theorem search_between {src : List Char} {name : String} {between rest : List (Line × LocatedToken)}
    (no_anchor : ∀ item ∈ between, ¬ IsAnchor (beginAnchor name) item ∧ ¬ IsAnchor (endAnchor name) item)
    (active : Delimiters) (opened : Option Opening) :
    ∃ active', search src name active opened (between ++ rest) = search src name active' opened rest := by
  induction between generalizing active with
  | nil => exact ⟨active, rfl⟩
  | cons item between ih =>
    obtain ⟨first, others⟩ := List.forall_mem_cons.mp no_anchor
    rw [List.cons_append, search_other first.1 first.2]
    exact ih others _

/-- A fragment with both anchors is found. -/
theorem Extraction.extract_eq {source name : String} (x : Extraction source name) :
    extract source name = .ok (some (cut source.toList ⟨x.start, x.delimiters⟩ x.stop)) := by
  have found : search source.toList name .standard none (placed (layout source).lines) =
      .ok (some (cut source.toList ⟨x.start, x.delimiters⟩ x.stop)) := by
    rw [x.order, search_before x.first, search_begin x.begins, if_neg (by simp)]
    obtain ⟨active, behind⟩ := search_between x.next x.delimiters (some ⟨x.start, x.delimiters⟩)
    exact behind.trans (search_end x.ends)
  unfold extract
  dsimp only
  rw [← placed, found]

end Fragment

namespace Tiles

variable {n m : Nat} {t : LocatedToken} {a b : List LocatedToken} {line : Line}

theorem split (tiles : Tiles n (a ++ b) m) : ∃ k, Tiles n a k ∧ Tiles k b m := by
  induction a generalizing n with
  | nil => exact ⟨n, .nil, tiles⟩
  | cons t rest ih =>
    cases tiles with
    | cons starts filled later =>
      obtain ⟨k, before, behind⟩ := ih later
      exact ⟨k, .cons starts filled before, behind⟩

theorem le (tiles : Tiles n a m) : n ≤ m := by
  induction tiles with
  | nil => exact Nat.le_refl _
  | cons starts _ _ ih => exact starts ▸ Nat.le_trans (Nat.le_add_right _ _) ih

theorem length_eq (tiles : Tiles n a m) : m = n + bytes (rawText a) := by
  induction tiles with
  | nil => simp [bytes]
  | cons starts _ _ ih =>
    rw [ih, LocatedToken.stop, starts, rawText_cons, bytes_append, Nat.add_assoc]

theorem start_eq (tiles : Tiles n (t :: a) m) : n = t.start := by
  cases tiles with
  | cons starts => exact starts.symm

theorem stop_eq (tiles : Tiles n (a ++ [t]) m) : m = t.stop := by
  obtain ⟨k, _, last⟩ := tiles.split
  cases last with
  | cons _ _ none =>
    cases none
    rfl

/-- Tokens that begin with a line begin where the line does. -/
theorem start_line (filled : line.tokens ≠ []) (tiles : Tiles n (line.tokens ++ a) m) : n = line.start := by
  obtain ⟨t, rest, tokens⟩ := List.exists_cons_of_ne_nil filled
  rw [tokens, List.cons_append] at tiles
  rw [tiles.start_eq, Line.start, tokens]
  rfl

/-- Tokens that end with a line end where the line does. -/
theorem stop_line (filled : line.tokens ≠ []) (tiles : Tiles n (a ++ line.tokens) m) : m = line.stop := by
  obtain ⟨t, last⟩ : ∃ t, line.tokens.getLast? = some t := ⟨_, List.getLast?_eq_some_getLast filled⟩
  obtain ⟨front, tokens⟩ := List.getLast?_eq_some_iff.mp last
  rw [tokens, ← List.append_assoc] at tiles
  rw [tiles.stop_eq, Line.stop, last]
  rfl

end Tiles

theorem placed_cons (line : Line) (lines : List Line) :
    placed (line :: lines) = line.tokens.map (line, ·) ++ placed lines := List.flatMap_cons

/-- A token of some lines stands in one of them. -/
theorem placed_cut {lines : List Line} {before after : List (Line × LocatedToken)} {item : Line × LocatedToken}
    (order : placed lines = before ++ item :: after) :
    ∃ earlier later front back, lines = earlier ++ item.1 :: later ∧ item.1.tokens = front ++ item.2 :: back ∧
      before = placed earlier ++ front.map (item.1, ·) ∧ after = back.map (item.1, ·) ++ placed later := by
  induction lines generalizing before with
  | nil => simp [placed] at order
  | cons line lines ih =>
    have further {a : List (Line × LocatedToken)} (rest : placed lines = a ++ item :: after) :
        ∃ earlier later front back, line :: lines = earlier ++ item.1 :: later ∧
          item.1.tokens = front ++ item.2 :: back ∧
          line.tokens.map (line, ·) ++ a = placed earlier ++ front.map (item.1, ·) ∧
          after = back.map (item.1, ·) ++ placed later := by
      obtain ⟨earlier, later, front, back, rfl, tokens, rfl, rfl⟩ := ih rest
      exact ⟨line :: earlier, later, front, back, rfl, tokens, by rw [placed_cons, List.append_assoc], rfl⟩
    rw [placed_cons] at order
    rcases List.append_eq_append_iff.mp order with ⟨a, rfl, rest⟩ | ⟨c, tokens, rest⟩
    · exact further rest
    · cases c with
      | nil =>
        rw [List.append_nil] at tokens
        have found := further (a := []) rest.symm
        rwa [List.append_nil, tokens] at found
      | cons i c =>
        obtain ⟨rfl, rfl⟩ : item = i ∧ after = c ++ placed lines := by simpa using rest
        obtain ⟨front, others, cut, rfl, mapped⟩ := List.map_eq_append_iff.mp tokens
        obtain ⟨t, back, rfl, rfl, rfl⟩ := List.map_eq_cons_iff.mp mapped
        exact ⟨[], lines, front, back, rfl, cut, rfl, rfl⟩

/-! ## Lines that stand alone -/

/-- Beside the tag of a line that stands alone there are only blanks. -/
theorem Line.blank_beside_tag {line : Line} {front back : List LocatedToken} {t : LocatedToken}
    (alone : line.standalone = true) (tokens : line.tokens = front ++ t :: back) (tag : role t.token = .tag) :
    ∀ u ∈ front ++ back, role u.token = .blank := by
  simp only [standalone, tokens, List.map_append, List.map_cons, tag, List.count_append, List.count_cons_self,
    Bool.and_eq_true, Bool.not_eq_true', beq_iff_eq] at alone
  obtain ⟨no_content, one⟩ := alone
  intro u member
  have listed : role u.token ∈ (front ++ back).map (role ·.token) := List.mem_map_of_mem member
  cases kind : role u.token with
  | blank => rfl
  | tag =>
    -- It would be a second tag.
    rw [kind] at listed
    have more := List.count_pos_iff.mpr listed
    rw [List.map_append, List.count_append] at more
    omega
  | content =>
    rw [kind] at listed
    have held : Role.content ∈ front.map (role ·.token) ++ Role.tag :: back.map (role ·.token) := by
      rw [List.map_append, List.mem_append] at listed
      rcases listed with left | right
      · exact List.mem_append_left _ left
      · exact List.mem_append_right _ (List.mem_cons_of_mem _ right)
    simp [held] at no_content

theorem Line.role_comment {t : LocatedToken} {body : String} (comment : t.token = .tag body .comment) :
    role t.token = .tag := by
  rw [comment]
  rfl

namespace Fragment

variable {item : Line × LocatedToken} {front back : List LocatedToken} {anchor : String}

/-- The tokens of the line of a begin anchor that stand before the fragment, and those in it. -/
theorem opening_cut (comment : IsAnchor anchor item) (tokens : item.1.tokens = front ++ item.2 :: back) :
    ∃ head tail, item.1.tokens = head ++ tail ∧ (item.1.standalone = true → tail = []) ∧
      (∀ d, activeAfter d head = activeAfter d front) ∧
      ∀ {earlier n m}, Tiles n (earlier ++ head) m → m = startBehind item := by
  cases alone : item.1.standalone with
  | true =>
    refine ⟨item.1.tokens, [], (List.append_nil _).symm, fun _ => rfl, fun d => ?_, fun tiles => ?_⟩
    · have blanks := Line.blank_beside_tag alone tokens (Line.role_comment comment)
      rw [tokens, activeAfter_append, activeAfter_eq]
      refine List.forall_mem_cons.mpr ⟨fun _ _ change => ?_, fun u member _ _ change => ?_⟩
      · rw [show item.2.token = _ from comment] at change
        cases change
      · have blank := blanks u (List.mem_append_right _ member)
        rw [change] at blank
        cases blank
    · rw [startBehind, if_pos alone]
      exact tiles.stop_line (by simp [tokens])
  | false =>
    refine ⟨front ++ [item.2], back, by simp [tokens], nofun, fun d => ?_, fun tiles => ?_⟩
    · rw [activeAfter_append, activeAfter_tag _ comment]
    · rw [startBehind, alone]
      rw [← List.append_assoc] at tiles
      exact tiles.stop_eq

/-- The tokens of the line of an end anchor that stand in the fragment, and those behind it. -/
theorem closing_cut (item : Line × LocatedToken) (tokens : item.1.tokens = front ++ item.2 :: back) :
    ∃ head tail, item.1.tokens = head ++ tail ∧ (item.1.standalone = true → head = []) ∧
      ∀ {later n m}, Tiles n (tail ++ later) m → n = stopBefore item := by
  cases alone : item.1.standalone with
  | true =>
    refine ⟨[], item.1.tokens, rfl, fun _ => rfl, fun tiles => ?_⟩
    rw [stopBefore, if_pos alone]
    exact tiles.start_line (by simp [tokens])
  | false =>
    refine ⟨front, item.2 :: back, tokens, nofun, fun tiles => ?_⟩
    rw [stopBefore, alone]
    exact tiles.start_eq

namespace Extraction

variable {source name : String}

/-- The tokens of the whole lines, and those that a fault cuts off. -/
theorem tokens_of_layout (source : String) :
    ∃ unfinished, (tokenize source).tokens = (layout source).lines.flatMap (·.tokens) ++ unfinished := by
  have whole := groupLines_flatten (tokenize source).tokens
  by_cases dropped : (tokenize source).failure.isSome || (groupLines (tokenize source).tokens).2.isEmpty
  · exact ⟨(groupLines (tokenize source).tokens).2, by simp [layout, dropped, whole]⟩
  · exact ⟨[], by simp [layout, dropped, whole]⟩

theorem tokens_placed (lines : List Line) : (placed lines).map (·.2) = lines.flatMap (·.tokens) := by
  induction lines with
  | nil => rfl
  | cons line rest ih => simp [placed_cons, ih, Function.comp_def]

/-- The anchors stand in one line that does not stand alone, or in two lines. -/
theorem lines_cases (x : Extraction source name) :
    (∃ earlier later front middle back, (layout source).lines = earlier ++ x.opening.1 :: later ∧
      x.closing.1 = x.opening.1 ∧ x.opening.1.tokens = front ++ x.opening.2 :: (middle ++ x.closing.2 :: back) ∧
      x.before = placed earlier ++ front.map (x.opening.1, ·)) ∨
    ∃ earlier between later front back head tail,
      (layout source).lines = earlier ++ x.opening.1 :: (between ++ x.closing.1 :: later) ∧
      x.opening.1.tokens = front ++ x.opening.2 :: back ∧ x.closing.1.tokens = head ++ x.closing.2 :: tail ∧
      x.before = placed earlier ++ front.map (x.opening.1, ·) ∧
      x.between = back.map (x.opening.1, ·) ++ (placed between ++ head.map (x.closing.1, ·)) := by
  obtain ⟨earlier, later, front, back, lines, tokens, before, rest⟩ := placed_cut x.order
  have apart {a : List (Line × LocatedToken)} (same : x.between = back.map (x.opening.1, ·) ++ a)
      (further : placed later = a ++ x.closing :: x.after) :
      ∃ earlier between later front back head tail,
        (layout source).lines = earlier ++ x.opening.1 :: (between ++ x.closing.1 :: later) ∧
        x.opening.1.tokens = front ++ x.opening.2 :: back ∧ x.closing.1.tokens = head ++ x.closing.2 :: tail ∧
        x.before = placed earlier ++ front.map (x.opening.1, ·) ∧
        x.between = back.map (x.opening.1, ·) ++ (placed between ++ head.map (x.closing.1, ·)) := by
    obtain ⟨middle, others, head, tail, lines', closing, rfl, _⟩ := placed_cut further
    exact ⟨earlier, middle, others, front, back, head, tail, by rw [lines, lines'], tokens, closing, before, same⟩
  rcases List.append_eq_append_iff.mp rest with ⟨a, same, further⟩ | ⟨a, same, further⟩
  · cases a with
    | nil => exact .inr (apart (a := []) (by simpa using same.symm) further.symm)
    | cons item a =>
      obtain ⟨rfl, _⟩ : x.closing = item ∧ x.after = a ++ placed later := by simpa using further
      obtain ⟨middle, others, cut, _, mapped⟩ := List.map_eq_append_iff.mp same
      obtain ⟨t, last, rfl, placed_here, _⟩ := List.map_eq_cons_iff.mp mapped
      rw [← placed_here]
      exact .inl ⟨earlier, later, front, middle, last, lines, rfl, by rw [tokens, cut], before⟩
  · exact .inr (apart same further)

theorem tiles_of_tokens (x : Extraction source name) {pre mid post : List LocatedToken}
    (all : (tokenize source).tokens = pre ++ mid ++ post) (starts : ∀ {n m}, Tiles n pre m → m = x.start)
    (stops : ∀ {n m}, Tiles n post m → n = x.stop) :
    Tiles 0 pre x.start ∧ Tiles x.start mid x.stop ∧ Tiles x.stop post (tokenize source).final.offset := by
  have tiles : Tiles 0 _ (tokenize source).final.offset := (tokenize_reads source).tiles
  rw [all] at tiles
  obtain ⟨k, front, behind⟩ := tiles.split
  obtain ⟨i, before, inside⟩ := front.split
  obtain rfl := starts before
  obtain rfl := stops behind
  exact ⟨before, inside, behind⟩

/-- The tokens of a source before a fragment, in it, and behind it. Between anchors that stand alone these are whole
lines, and what else is between the anchors is blank. -/
theorem exists_cut_lines (x : Extraction source name) :
    ∃ pre mid post, (tokenize source).tokens = pre ++ mid ++ post ∧ x.delimiters = activeAfter .standard pre ∧
      Tiles 0 pre x.start ∧ Tiles x.start mid x.stop ∧ Tiles x.stop post (tokenize source).final.offset ∧
      (x.opening.1.standalone = true → x.closing.1.standalone = true →
        ∃ earlier between later, (layout source).lines = earlier ++ x.opening.1 :: (between ++ x.closing.1 :: later) ∧
          pre = (earlier ++ [x.opening.1]).flatMap (·.tokens) ∧ mid = between.flatMap (·.tokens) ∧
          ∀ item ∈ x.between, item ∈ placed between ∨ Line.role item.2.token = .blank) := by
  obtain ⟨unfinished, all⟩ := tokens_of_layout source
  have active_before {earlier : List Line} {front : List LocatedToken}
      (before : x.before = placed earlier ++ front.map (x.opening.1, ·)) :
      x.delimiters = activeAfter (activeAfter .standard (earlier.flatMap (·.tokens))) front := by
    rw [delimiters, before, List.map_append, tokens_placed, activeAfter_append]
    simp [Function.comp_def]
  rcases x.lines_cases with ⟨earlier, later, front, middle, back, lines, same, tokens, before⟩ |
    ⟨earlier, between, later, front, back, head, tail, lines, opening, closing, before, middle⟩
  · -- Two tags in one line, which therefore does not stand alone.
    have not_alone : x.opening.1.standalone = false := by
      refine Bool.eq_false_iff.mpr fun alone => ?_
      have blank := Line.blank_beside_tag alone tokens (Line.role_comment x.begins) x.closing.2 (by simp)
      rw [Line.role_comment x.ends] at blank
      cases blank
    have cut : (tokenize source).tokens = (earlier.flatMap (·.tokens) ++ front ++ [x.opening.2]) ++ middle ++
        (x.closing.2 :: (back ++ later.flatMap (·.tokens) ++ unfinished)) := by
      rw [all, lines]
      simp [tokens]
    refine ⟨_, _, _, cut, ?_, ?_⟩
    · rw [active_before before, activeAfter_append, activeAfter_append, activeAfter_tag _ x.begins]
    · obtain ⟨first, inside, last⟩ := x.tiles_of_tokens cut
        (fun tiles => by rw [start, startBehind, not_alone]; exact tiles.stop_eq)
        (fun tiles => by rw [stop, stopBefore, same, not_alone]; exact tiles.start_eq)
      exact ⟨first, inside, last, fun alone => by simp [not_alone] at alone⟩
  · obtain ⟨upto, inner, open_line, open_alone, open_active, open_stop⟩ := opening_cut x.begins opening
    obtain ⟨rest, from_, close_line, close_alone, close_start⟩ := closing_cut x.closing closing
    have cut : (tokenize source).tokens = (earlier.flatMap (·.tokens) ++ upto) ++
        (inner ++ between.flatMap (·.tokens) ++ rest) ++ (from_ ++ (later.flatMap (·.tokens) ++ unfinished)) := by
      rw [all, lines]
      simp [open_line, close_line]
    refine ⟨_, _, _, cut, ?_, ?_⟩
    · rw [active_before before, activeAfter_append, open_active]
    · obtain ⟨first, inside, last⟩ := x.tiles_of_tokens cut open_stop close_start
      refine ⟨first, inside, last, fun alone close => ⟨earlier, between, later, lines, ?_, ?_, fun item member => ?_⟩⟩
      · rw [open_alone alone, List.append_nil] at open_line
        simp [open_line]
      · rw [open_alone alone, close_alone close]
        simp
      · have opening_blank := Line.blank_beside_tag alone opening (Line.role_comment x.begins)
        have closing_blank := Line.blank_beside_tag close closing (Line.role_comment x.ends)
        rw [middle, List.mem_append, List.mem_append] at member
        rcases member with behind | inside | ahead
        · obtain ⟨t, listed, rfl⟩ := List.mem_map.mp behind
          exact .inr (opening_blank t (List.mem_append_right _ listed))
        · exact .inl inside
        · obtain ⟨t, listed, rfl⟩ := List.mem_map.mp ahead
          exact .inr (closing_blank t (List.mem_append_left _ listed))

/-- The tokens of a source before a fragment, in it, and behind it. -/
theorem exists_cut (x : Extraction source name) :
    ∃ pre mid post, (tokenize source).tokens = pre ++ mid ++ post ∧ x.delimiters = activeAfter .standard pre ∧
      Tiles 0 pre x.start ∧ Tiles x.start mid x.stop ∧ Tiles x.stop post (tokenize source).final.offset ∧
      (x.opening.1.standalone = true → x.closing.1.standalone = true →
        ∃ earlier between later, (layout source).lines = earlier ++ x.opening.1 :: (between ++ x.closing.1 :: later) ∧
          mid = between.flatMap (·.tokens)) := by
  obtain ⟨pre, mid, post, all, active, before, inside, behind, alone⟩ := x.exists_cut_lines
  refine ⟨pre, mid, post, all, active, before, inside, behind, fun opens closes => ?_⟩
  obtain ⟨earlier, between, later, lines, _, tokens, _⟩ := alone opens closes
  exact ⟨earlier, between, later, lines, tokens⟩

end Extraction

/-! ## Reading a fragment -/

/-- What is written before a fragment. -/
def restoration (d : Delimiters) : String := if d = .standard then "" else d.restoringTag

/-- The token of what is written before a fragment. -/
def restored (d : Delimiters) : List (Token × String) :=
  if d = .standard then [] else [(.delimiters .standard d, d.restoringTag)]

theorem cut_eq (src : List Char) (o : Opening) (stop : Nat) :
    cut src o stop = restoration o.delimiters ++ String.ofList (slice src o.offset stop) := by
  by_cases standard : o.delimiters = .standard <;> simp [cut, restoration, standard]

/-- What is read to the end makes up the whole text. -/
theorem tokenize_of_reads {text : String} {tokens : List LocatedToken} {d : Cursor}
    (reads : Cursor.Reads { rest := text.toList } tokens d) (done : d.rest = []) :
    tokenize text = ⟨tokens, none, d⟩ := by
  rw [tokenize, reads.run_eq, Cursor.run_of_nil done]
  simp

/-- Tokens in a row are read again behind a tag that restores their delimiters. -/
theorem tokenize_restored {c d : Cursor} {tokens : List LocatedToken} (reads : c.Reads tokens d) :
    (tokenize (restoration c.delimiters ++ String.ofList (rawText tokens))).failure = none ∧
      (tokenize (restoration c.delimiters ++ String.ofList (rawText tokens))).tokens.map (·.content) =
        restored c.delimiters ++ tokens.map (·.content) := by
  by_cases standard : c.delimiters = .standard
  · obtain ⟨copies, last, again, contents, done⟩ := reads.again (d := { rest := rawText tokens }) (.inl rfl)
      standard.symm (List.append_nil _).symm
    have whole : tokenize (String.ofList (rawText tokens)) = ⟨copies, none, last⟩ :=
      tokenize_of_reads (by simpa using again) done
    simp [restoration, restored, standard, whole, contents]
  · -- The restoring tag first, then the tokens from behind it.
    have tag := c.delimiters.lexeme_restoringTag {} (rawText tokens)
    let first : Cursor := { rest := c.delimiters.restoringTag.toList ++ rawText tokens }
    let l : Lexeme := ⟨.delimiters .standard c.delimiters, c.delimiters.restoringTag.toList, rawText tokens⟩
    obtain ⟨copies, last, again, contents, done⟩ := reads.again (d := first.after l) (.inl rfl) rfl
      (List.append_nil _).symm
    have left : first.rest ≠ [] := by
      simp [first, Delimiters.restoringTag]
    have whole : tokenize (c.delimiters.restoringTag ++ String.ofList (rawText tokens)) =
        ⟨first.locate l :: copies, none, last⟩ :=
      tokenize_of_reads (by simpa using Cursor.Reads.cons left tag again) done
    have head : (first.locate l).content = (.delimiters .standard c.delimiters, c.delimiters.restoringTag) := by
      simp [LocatedToken.content, Cursor.locate, l]
    simp [restoration, restored, standard, whole, contents, head]

/-- How a fragment that is read by itself compares with its source. -/
structure Extraction.ReadAlike {source name : String} (x : Extraction source name) (t : String) : Prop where
  ordered : x.start ≤ x.stop
  /-- The text between the anchors, behind a tag for the delimiters in force unless they are the standard ones. -/
  text : t = restoration x.delimiters ++ String.ofList (slice source.toList x.start x.stop)
  clean : (tokenize t).failure = none
  /-- The fragment starts and stops between tokens of its source, and has the tokens between. -/
  tokens : ∃ pre mid post, (tokenize source).tokens = pre ++ mid ++ post ∧
    Tiles 0 pre x.start ∧ Tiles x.start mid x.stop ∧ Tiles x.stop post (tokenize source).final.offset ∧
    (tokenize t).tokens.map (·.content) = restored x.delimiters ++ mid.map (·.content)

end Fragment

/-- The text of a source is that of its tokens, and of what a fault leaves behind them. -/
theorem text_of_tiles {source : String} {pre mid post : List LocatedToken} {m n : Nat}
    (all : (tokenize source).tokens = pre ++ mid ++ post) (before : Tiles 0 pre m) (inside : Tiles m mid n) :
    m = bytes (rawText pre) ∧ n = bytes (rawText pre) + bytes (rawText mid) ∧
      ∃ rest, source.toList = rawText pre ++ rawText mid ++ rest := by
  have whole : rawText (tokenize source).tokens ++ (tokenize source).final.rest = source.toList :=
    (tokenize_reads source).rawText_append_rest
  have start : m = bytes (rawText pre) := by simpa using before.length_eq
  refine ⟨start, by rw [inside.length_eq, start], rawText post ++ (tokenize source).final.rest, ?_⟩
  rw [← whole, all]
  simp

/-- The text of a fragment is read like the tokens that it was cut from. -/
theorem Fragment.Extraction.tokenize_cut {source name : String} (x : Fragment.Extraction source name)
    {pre mid post : List LocatedToken} (all : (tokenize source).tokens = pre ++ mid ++ post)
    (active : x.delimiters = activeAfter .standard pre) (before : Tiles 0 pre x.start)
    (inside : Tiles x.start mid x.stop) :
    (tokenize (Fragment.cut source.toList ⟨x.start, x.delimiters⟩ x.stop)).failure = none ∧
      (tokenize (Fragment.cut source.toList ⟨x.start, x.delimiters⟩ x.stop)).tokens.map (·.content) =
        Fragment.restored x.delimiters ++ mid.map (·.content) := by
  have reads := tokenize_reads source
  rw [all] at reads
  obtain ⟨m, front, _⟩ := reads.split
  obtain ⟨c, first, second⟩ := front.split
  obtain ⟨start, stop, rest, whole⟩ := text_of_tiles all before inside
  have text : slice source.toList x.start x.stop = rawText mid := by rw [whole, start, stop, slice_append]
  have same : x.delimiters = c.delimiters := by rw [active, first.delimiters_eq]
  rw [Fragment.cut_eq, text, same]
  exact Fragment.tokenize_restored second

/-- A fragment has the tokens that its source has between the anchors. -/
theorem tokenize_extract {source name t : String} (extracted : Fragment.extract source name = .ok (some t)) :
    ∃ x : Fragment.Extraction source name, x.ReadAlike t := by
  obtain ⟨x, rfl⟩ := Fragment.exists_extraction extracted
  obtain ⟨pre, mid, post, all, active, before, inside, behind, _⟩ := x.exists_cut
  obtain ⟨clean, tokens⟩ := x.tokenize_cut all active before inside
  exact ⟨x, inside.le, Fragment.cut_eq _ _ _, clean, pre, mid, post, all, before, inside, behind, tokens⟩

/-- A card between delimiters of its own, which it changes in turn. -/
def cardSource : String :=
  "\x7b\x7b=<% %>=\x7d\x7d\r\n<%! begin:card %>\r\n<h1><% name %><%=| |=%></h1>\r\n|title|\n|! end:card |\n"

def cardText : String := "\x7b\x7b=<% %>=\x7d\x7d<h1><% name %><%=| |=%></h1>\r\n|title|\n"

theorem card_read_alike : Fragment.extract cardSource "card" = .ok (some cardText) ∧
    ∃ x : Fragment.Extraction cardSource "card", x.ReadAlike cardText := by
  have extracted : Fragment.extract cardSource "card" = .ok (some cardText) := by cbv
  exact ⟨extracted, tokenize_extract extracted⟩

end Mustache

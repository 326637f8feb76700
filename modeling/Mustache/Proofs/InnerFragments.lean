import Mustache.Proofs.CommentLines

/-!
# Fragments of fragments

A fragment between anchors that stand alone, cut out where the standard delimiters are in force, has the tokens and the
lines of its source, nearer to the beginning by what stands before it (`lines_within`). A fragment inside it is thus
found in it as in the source, with the same text (`Fragment.extract_within`).
-/

namespace Mustache
open Text

/-! ## Tokens of a part -/

/-- The place of a token of a source in a part of the source that begins at a byte offset. -/
def LocatedToken.within (part : String) (k : Nat) (t : LocatedToken) : LocatedToken :=
  { t with position := positionAt part (t.start - k), start := t.start - k }

def Line.within (part : String) (k : Nat) (line : Line) : Line := ⟨line.tokens.map (·.within part k)⟩

section

variable {source part : String} {k l m n : Nat} {t : LocatedToken} {a b : List LocatedToken} {line : Line}

theorem position_of_mem (member : t ∈ (tokenize source).tokens) : t.position = positionAt source t.start := by
  have reads := tokenize_reads source
  obtain ⟨before, after, cut⟩ := List.append_of_mem member
  rw [cut] at reads
  obtain ⟨c, first, later⟩ := reads.split
  cases later with
  | cons => exact first.place.2

/-- Tokens that say the same as those of a source, and fill a part of it from its beginning on, stand where these do. -/
theorem eq_map_within (copies : Tiles n a m) (originals : Tiles (k + n) b l)
    (placed : ∀ t ∈ a, t.position = positionAt part t.start) (same : a.map (·.content) = b.map (·.content)) :
    a = b.map (·.within part k) := by
  induction copies generalizing b with
  | nil =>
    obtain rfl : b = [] := List.map_eq_nil_iff.mp same.symm
    rfl
  | @cons n m t tokens starts _ rest ih =>
    obtain ⟨u, others, rfl, first, later⟩ := List.map_eq_cons_iff.mp same.symm
    obtain ⟨here, elsewhere⟩ := List.forall_mem_cons.mp placed
    cases originals with
    | cons starts' _ rest' =>
      obtain ⟨token, raw⟩ : u.token = t.token ∧ u.raw = t.raw := Prod.mk.inj first
      have stop : u.stop = k + t.stop := by simp [LocatedToken.stop, starts, starts', raw, Nat.add_assoc]
      have start : u.start - k = t.start := by omega
      rw [List.map_cons, ← ih (stop ▸ rest') elsewhere later.symm]
      congr 1
      rw [LocatedToken.within, start, ← here, token, raw]

theorem LocatedToken.start_within (behind : k ≤ t.start) : t.start = k + (t.within part k).start :=
  (Nat.add_sub_of_le behind).symm

theorem LocatedToken.stop_within (behind : k ≤ t.start) : t.stop = k + (t.within part k).stop := by
  show t.start + bytes t.raw.toList = k + (t.start - k + bytes t.raw.toList)
  omega

namespace Line

theorem Complete.within (complete : line.Complete) : (line.within part k).Complete := by
  obtain ⟨front, last, tokens, break_, inside⟩ := complete
  refine ⟨front.map (·.within part k), last.within part k, by rw [Line.within, tokens, List.map_append]; rfl, break_, ?_⟩
  exact List.forall_mem_map.mpr inside

theorem standalone_within : (line.within part k).standalone = line.standalone :=
  standalone_of_said (said_map (f := (·.within part k)) (fun _ => rfl) line)

theorem start_within (filled : line.tokens ≠ []) (behind : ∀ t ∈ line.tokens, k ≤ t.start) :
    line.start = k + (line.within part k).start := by
  obtain ⟨tokens⟩ := line
  obtain ⟨t, rest, rfl⟩ := List.exists_cons_of_ne_nil filled
  exact LocatedToken.start_within (behind t List.mem_cons_self)

theorem stop_within (filled : line.tokens ≠ []) (behind : ∀ t ∈ line.tokens, k ≤ t.start) :
    line.stop = k + (line.within part k).stop := by
  rw [stop, stop, Line.within, List.getLast?_map, List.getLast?_eq_some_getLast filled]
  exact LocatedToken.stop_within (behind _ (List.getLast_mem filled))

end Line

end

/-! ## Items of a part -/

section

variable {α : Type} {a b c p q r : List α} {x y : α}

/-- An element that is in a list once divides it in one way. -/
theorem eq_of_nodup_cons (once : (p ++ x :: q).Nodup) (same : p ++ x :: q = a ++ x :: b) : p = a ∧ q = b := by
  obtain ⟨_, apart, beside⟩ := List.nodup_append.mp once
  have not_before : x ∉ p := fun member => beside x member x List.mem_cons_self rfl
  have not_behind : x ∉ q := (List.nodup_cons.mp apart).1
  obtain ⟨before, _, behind⟩ := (List.append_cons_inj_of_notMem not_before not_behind).mp same
  exact ⟨before, behind⟩

/-- Where a middle part of a list without repetitions has two elements, it has all that stands between them. -/
theorem exists_middle (once : (a ++ (b ++ c)).Nodup) (first : x ∈ b) (second : y ∈ b)
    (cut : a ++ (b ++ c) = p ++ x :: (q ++ y :: r)) :
    ∃ front back, p = a ++ front ∧ b = front ++ x :: (q ++ y :: back) := by
  rw [cut] at once
  obtain ⟨_, apart, beside⟩ := List.nodup_append.mp once
  obtain ⟨not_behind, once_behind⟩ := List.nodup_cons.mp apart
  obtain ⟨front, rest, rfl⟩ := List.append_of_mem first
  obtain ⟨rfl, behind⟩ := eq_of_nodup_cons (a := a ++ front) (b := rest ++ c) once (by rw [← cut]; simp)
  have later : y ∈ rest := by
    have not_before : y ∉ front := fun member => beside y (List.mem_append_right _ member) y (by simp) rfl
    have other : y ≠ x := by
      rintro rfl
      exact not_behind (by simp)
    simpa [not_before, other] using second
  obtain ⟨between, back, rfl⟩ := List.append_of_mem later
  obtain ⟨rfl, _⟩ := eq_of_nodup_cons (a := between) (b := back ++ c) once_behind (by rw [behind]; simp)
  exact ⟨front, back, rfl, rfl⟩

end

theorem Tiles.nodup {n m : Nat} {tokens : List LocatedToken} (tiles : Tiles n tokens m) : tokens.Nodup := by
  induction tiles with
  | nil => exact List.nodup_nil
  | cons _ filled rest ih =>
    refine List.nodup_cons.mpr ⟨fun again => ?_, ih⟩
    exact absurd (rest.le_start _ again) (Nat.not_le.mpr (LocatedToken.start_lt_stop filled))

/-- No token stands in a source twice. -/
theorem placed_nodup (source : String) : (placed (layout source).lines).Nodup := by
  have tiles := (tokenize_reads source).tiles
  obtain ⟨unfinished, all⟩ := Fragment.Extraction.tokens_of_layout source
  rw [all] at tiles
  obtain ⟨_, listed, _⟩ := tiles.split
  refine List.Nodup.of_map (·.2) ?_
  rw [Fragment.Extraction.tokens_placed]
  exact listed.nodup

theorem placed_append (a b : List Line) : placed (a ++ b) = placed a ++ placed b := List.flatMap_append

namespace Fragment

def itemWithin (part : String) (k : Nat) (item : Line × LocatedToken) : Line × LocatedToken :=
  (item.1.within part k, item.2.within part k)

theorem placed_within (part : String) (k : Nat) (lines : List Line) :
    placed (lines.map (·.within part k)) = (placed lines).map (itemWithin part k) := by
  induction lines with
  | nil => rfl
  | cons line rest ih =>
    rw [List.map_cons, placed_cons, placed_cons, List.map_append, ih]
    simp [Line.within, itemWithin, Function.comp_def]

theorem activeAfter_within (d : Delimiters) (part : String) (k : Nat) (items : List (Line × LocatedToken)) :
    activeAfter d ((items.map (itemWithin part k)).map (·.2)) = activeAfter d (items.map (·.2)) := by
  refine activeAfter_congr ?_ d
  simp [itemWithin, LocatedToken.within, LocatedToken.content, Function.comp_def]

section

variable {source outer inner t u : String} {ahead inside behind : List Line}

theorem startBehind_within {part : String} {k : Nat} {item : Line × LocatedToken} (listed : item.2 ∈ item.1.tokens)
    (behind : ∀ u ∈ item.1.tokens, k ≤ u.start) : startBehind item = k + startBehind (itemWithin part k item) := by
  rw [startBehind, startBehind, itemWithin, Line.standalone_within,
    Line.stop_within (List.ne_nil_of_mem listed) behind, LocatedToken.stop_within (behind item.2 listed)]
  split <;> rfl

theorem stopBefore_within {part : String} {k : Nat} {item : Line × LocatedToken} (listed : item.2 ∈ item.1.tokens)
    (behind : ∀ u ∈ item.1.tokens, k ≤ u.start) : stopBefore item = k + stopBefore (itemWithin part k item) := by
  rw [stopBefore, stopBefore, itemWithin, Line.standalone_within,
    Line.start_within (List.ne_nil_of_mem listed) behind, LocatedToken.start_within (behind item.2 listed)]
  split <;> rfl

/-! ## Fragments of a fragment -/

/-- How the lines of a source are cut by a fragment that begins with the standard delimiters in force: those up to its
begin anchor, those in it, and those from its end anchor on. -/
structure Extraction.CutLines (x : Extraction source outer) (t : String) (ahead inside behind : List Line) : Prop where
  lines : (layout source).lines = ahead ++ (inside ++ behind)
  /-- What else is between the anchors has no part in other fragments. -/
  items : ∀ item ∈ x.between, item ∈ placed inside ∨ Line.role item.2.token = .blank
  start : x.start = bytes (rawText (ahead.flatMap (·.tokens)))
  active : activeAfter .standard (ahead.flatMap (·.tokens)) = .standard
  text : ∃ rest, source.toList = rawText (ahead.flatMap (·.tokens)) ++ t.toList ++ rest
  within : (layout t).lines = inside.map (·.within t x.start)
  later : ∀ line ∈ inside, ∀ u ∈ line.tokens, x.start ≤ u.start

/-- A fragment between anchors that stand alone, where the standard delimiters are in force, has the lines of its
source. -/
theorem lines_within (x : Extraction source outer) (opens : x.opening.1.standalone = true)
    (closes : x.closing.1.standalone = true) (standard : x.delimiters = .standard) :
    ∃ t ahead inside behind, extract source outer = .ok (some t) ∧ x.CutLines t ahead inside behind := by
  obtain ⟨pre, mid, post, all, active, before, middle, _, alone⟩ := x.exists_cut_lines
  obtain ⟨clean, contents⟩ := x.tokenize_cut all active before middle
  obtain ⟨earlier, inside, later, lines, rfl, rfl, items⟩ := alone opens closes
  obtain ⟨start, stop, rest, whole⟩ := text_of_tiles all before middle
  have text : cut source.toList ⟨x.start, x.delimiters⟩ x.stop = String.ofList (rawText (inside.flatMap (·.tokens))) := by
    rw [cut_eq, restoration, if_pos standard, whole, start, stop, slice_append, String.empty_append]
  refine ⟨_, earlier ++ [x.opening.1], inside, x.closing.1 :: later, x.extract_eq, ?_⟩
  rw [text] at clean contents ⊢
  generalize same : String.ofList (rawText (inside.flatMap (·.tokens))) = t at clean contents ⊢
  have complete : ∀ line ∈ inside, line.Complete := fun line member =>
    layout_complete (by rw [lines, List.append_cons, ← List.append_assoc]) line (List.mem_append_right _ member)
  have complete_within : ∀ line ∈ inside.map (·.within t x.start), line.Complete :=
    List.forall_mem_map.mpr fun line member => (complete line member).within
  have tokens : (tokenize t).tokens = (inside.map (·.within t x.start)).flatMap (·.tokens) := by
    rw [restored, if_pos standard, List.nil_append] at contents
    rw [eq_map_within (tokenize_reads t).tiles middle (fun _ => position_of_mem) contents, List.map_flatMap,
      List.flatMap_map]
    rfl
  refine ⟨by rw [lines]; simp, items, start, active.symm.trans standard, ?_, ?_, fun line member u listed => ?_⟩
  · exact ⟨rest, by rw [whole, ← same, String.toList_ofList]⟩
  · have grouped := wholeLines_behind (r := []) (List.forall_mem_nil _) complete_within
    rwa [List.nil_append, linesBehind_nil, ← tokens, ← lines_of_clean clean] at grouped
  · exact middle.le_start u (List.mem_flatMap.mpr ⟨line, member, listed⟩)

namespace Extraction.CutLines

variable {x : Extraction source outer} {anchor : String} {item : Line × LocatedToken}

theorem mem_inside (cuts : x.CutLines t ahead inside behind) (is_anchor : IsAnchor anchor item)
    (between : item ∈ x.between) : item ∈ placed inside := by
  refine (cuts.items item between).resolve_right fun blank => ?_
  rw [Line.role_comment is_anchor] at blank
  cases blank

/-- What is inside a fragment stands there as in its source. -/
theorem place_within (cuts : x.CutLines t ahead inside behind) (listed : item ∈ placed inside) :
    startBehind item = x.start + startBehind (itemWithin t x.start item) ∧
      stopBefore item = x.start + stopBefore (itemWithin t x.start item) := by
  obtain ⟨line, member, in_line⟩ := List.mem_flatMap.mp listed
  obtain ⟨u, token, rfl⟩ := List.mem_map.mp in_line
  exact ⟨startBehind_within token (cuts.later line member), stopBefore_within token (cuts.later line member)⟩

/-- A fragment with both anchors inside another one begins and ends there as in the source. -/
theorem exists_within (cuts : x.CutLines t ahead inside behind) (y : Extraction source inner)
    (opening_between : y.opening ∈ x.between) (closing_between : y.closing ∈ x.between) :
    ∃ z : Extraction t inner, y.start = x.start + z.start ∧ y.stop = x.start + z.stop ∧ y.delimiters = z.delimiters := by
  have opening_inside := cuts.mem_inside y.begins opening_between
  have closing_inside := cuts.mem_inside y.ends closing_between
  have once := placed_nodup source
  have order := y.order
  rw [cuts.lines, placed_append, placed_append] at once order
  obtain ⟨front, back, before, order_inside⟩ := exists_middle once opening_inside closing_inside order
  have first := y.first
  rw [before] at first
  let z : Extraction t inner := {
    before := front.map (itemWithin t x.start)
    opening := itemWithin t x.start y.opening
    between := y.between.map (itemWithin t x.start)
    closing := itemWithin t x.start y.closing
    after := back.map (itemWithin t x.start)
    order := by
      rw [cuts.within, placed_within, order_inside]
      simp
    begins := y.begins
    ends := y.ends
    first := List.forall_mem_map.mpr (List.forall_mem_append.mp first).2
    next := List.forall_mem_map.mpr y.next }
  refine ⟨z, (cuts.place_within opening_inside).1, (cuts.place_within closing_inside).2, ?_⟩
  rw [delimiters, delimiters, activeAfter_within, before, List.map_append, tokens_placed, activeAfter_append, cuts.active]

end Extraction.CutLines

/-- A fragment inside another one is the same in both sources. -/
theorem extract_within (found_outer : extract source outer = .ok (some t))
    (found_inner : extract source inner = .ok (some u)) (x : Extraction source outer) (y : Extraction source inner)
    (opens : x.opening.1.standalone = true) (closes : x.closing.1.standalone = true)
    (standard : x.delimiters = .standard) (inside : y.opening ∈ x.between ∧ y.closing ∈ x.between) :
    extract t inner = .ok (some u) := by
  obtain ⟨t', ahead, lines, behind, found, cuts⟩ := lines_within x opens closes standard
  obtain rfl : t' = t := by simpa [found] using found_outer
  obtain ⟨z, start, stop, active⟩ := cuts.exists_within y inside.1 inside.2
  obtain ⟨before, middle, _, all, _, first, second, _⟩ := z.exists_cut
  obtain ⟨z_start, z_stop, behind_inner, part⟩ := text_of_tiles all first second
  obtain ⟨behind_outer, whole⟩ := cuts.text
  have text : slice source.toList y.start y.stop = slice t'.toList z.start z.stop := by
    have apart : source.toList = rawText (ahead.flatMap (·.tokens)) ++ rawText before ++ rawText middle ++
        (behind_inner ++ behind_outer) := by
      rw [whole, part]
      simp
    rw [apart, start, stop, part, z_start, z_stop, cuts.start, ← Nat.add_assoc, ← bytes_append, slice_append, slice_append]
  rw [← found_inner, z.extract_eq, y.extract_eq, cut_eq, cut_eq, text, active]

end

/-! A dish of a menu, behind a change of the delimiters that is in the menu as well. -/

def menuSource : String :=
  "\x7b\x7b!begin:menu\x7d\x7d\n\x7b\x7b=| |=\x7d\x7d|!begin:dish|\n|x||!end:dish|\n|!end:menu|\n"

def menuText : String := "\x7b\x7b=| |=\x7d\x7d|!begin:dish|\n|x||!end:dish|\n"

def dishText : String := "\x7b\x7b=| |=\x7d\x7d\n|x|"

def menuBegin : LocatedToken := ⟨.tag "begin:menu" .comment, ⟨1, 1⟩, 0, "\x7b\x7b!begin:menu\x7d\x7d"⟩

def menuBreak : LocatedToken := ⟨.newline .lf, ⟨1, 16⟩, 15, "\n"⟩

def dishChange : LocatedToken := ⟨.delimiters .standard bars, ⟨2, 1⟩, 16, "\x7b\x7b=| |=\x7d\x7d"⟩

def dishBegin : LocatedToken := ⟨.tag "begin:dish" .comment, ⟨2, 10⟩, 25, "|!begin:dish|"⟩

def dishBreak : LocatedToken := ⟨.newline .lf, ⟨2, 23⟩, 38, "\n"⟩

def dishName : LocatedToken := ⟨.tag "x" .interpolation, ⟨3, 1⟩, 39, "|x|"⟩

def dishEnd : LocatedToken := ⟨.tag "end:dish" .comment, ⟨3, 4⟩, 42, "|!end:dish|"⟩

def dishLast : LocatedToken := ⟨.newline .lf, ⟨3, 15⟩, 53, "\n"⟩

def menuEnd : LocatedToken := ⟨.tag "end:menu" .comment, ⟨4, 1⟩, 54, "|!end:menu|"⟩

def menuLast : LocatedToken := ⟨.newline .lf, ⟨4, 12⟩, 65, "\n"⟩

def dishHead : Line := ⟨[dishChange, dishBegin, dishBreak]⟩

def dishTail : Line := ⟨[dishName, dishEnd, dishLast]⟩

def menuExtraction : Extraction menuSource "menu" where
  before := []
  opening := (⟨[menuBegin, menuBreak]⟩, menuBegin)
  between := (⟨[menuBegin, menuBreak]⟩, menuBreak) :: placed [dishHead, dishTail]
  closing := (⟨[menuEnd, menuLast]⟩, menuEnd)
  after := [(⟨[menuEnd, menuLast]⟩, menuLast)]
  order := by cbv
  begins := by decide
  ends := by decide
  first := by decide
  next := by decide

def dishExtraction : Extraction menuSource "dish" where
  before := placed [⟨[menuBegin, menuBreak]⟩] ++ [(dishHead, dishChange)]
  opening := (dishHead, dishBegin)
  between := [(dishHead, dishBreak), (dishTail, dishName)]
  closing := (dishTail, dishEnd)
  after := (dishTail, dishLast) :: placed [⟨[menuEnd, menuLast]⟩]
  order := by cbv
  begins := by decide
  ends := by decide
  first := by decide
  next := by decide

theorem dish_of_menu :
    extract menuSource "menu" = .ok (some menuText) ∧ extract menuSource "dish" = .ok (some dishText) ∧
      extract menuText "dish" = .ok (some dishText) := by
  have menu_found : extract menuSource "menu" = .ok (some menuText) := by cbv
  have dish_found : extract menuSource "dish" = .ok (some dishText) := by cbv
  refine ⟨menu_found, dish_found, ?_⟩
  exact extract_within menu_found dish_found menuExtraction dishExtraction (by decide) (by decide) (by decide)
    ⟨by simp [menuExtraction, dishExtraction, placed, dishHead], by simp [menuExtraction, dishExtraction, placed, dishTail]⟩

end Fragment
end Mustache

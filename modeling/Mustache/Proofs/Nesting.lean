import Mathlib
import Mustache.Proofs.References

/-!
# Balanced templates

A source has statements exactly when it is read without a fault, its references are valid, and its tags that open
and end scopes are balanced; if only these are not, the fault names the first of them that is to blame
(`ofSource_accepts`). Balanced words are said by a grammar (`ScopeTag.Balanced`). That a source is read by it rests
on the names and positions of the open tags alone (`map_readLines`), and following these comes to the words of the
grammar (`ScopeTag.verdict_ok_iff`) and to the faults of all others (`ScopeTag.verdict_error_iff`).
-/

namespace Mustache
open Text

/-! ## Scope tags -/

/-- A tag that opens a scope, or an end tag. -/
inductive ScopeTag where
  | opens (name : String) (position : Position)
  | closes (name : String) (position : Position)

def LocatedToken.scopeTag? (t : LocatedToken) : Option ScopeTag :=
  match t.token with
  | .tag name kind =>
    if kind.opensScope then some (.opens name t.position)
    else if kind = .scopeEnd then some (.closes name t.position)
    else none
  | _ => none

def scopeTags (tokens : List LocatedToken) : List ScopeTag := tokens.filterMap (·.scopeTag?)

namespace ScopeTag

/-- Words in which every end tag closes the innermost open tag, whose name it carries. -/
inductive Balanced : List ScopeTag → Prop where
  | nil : Balanced []
  | nest {name : String} {start stop : Position} {inside rest : List ScopeTag} (inner : Balanced inside)
    (outer : Balanced rest) : Balanced (.opens name start :: (inside ++ .closes name stop :: rest))

/-- Words that are balanced but for some tags which stay open: their names and positions, innermost first. -/
inductive Leaves : List ScopeTag → List (String × Position) → Prop where
  | balanced {word : List ScopeTag} (all : Balanced word) : Leaves word []
  | opened {word inside : List ScopeTag} {stack : List (String × Position)} {name : String} {start : Position}
    (before : Leaves word stack) (inner : Balanced inside) :
    Leaves (word ++ .opens name start :: inside) ((name, start) :: stack)

/-- The fault of a word that is not balanced. -/
inductive Mismatch : List ScopeTag → Fault → Prop where
  /-- The first end tag that does not close the innermost open tag has another name. -/
  | other {before behind : List ScopeTag} {stack : List (String × Position)} {name found : String}
    {start position : Position} (leaves : Leaves before ((name, start) :: stack)) (differs : name ≠ found) :
    Mismatch (before ++ .closes found position :: behind) (.sectionMismatch (some name) (some found) position)
  /-- It has nothing to close. -/
  | unopened {before behind : List ScopeTag} {found : String} {position : Position} (all : Balanced before) :
    Mismatch (before ++ .closes found position :: behind) (.sectionMismatch none (some found) position)
  /-- There is none, and a tag stays open. -/
  | unclosed {word : List ScopeTag} {stack : List (String × Position)} {name : String} {start : Position}
    (leaves : Leaves word ((name, start) :: stack)) :
    Mismatch word (.sectionMismatch (some name) none start)

theorem Balanced.append {a b : List ScopeTag} (first : Balanced a) (second : Balanced b) : Balanced (a ++ b) := by
  induction first with
  | nil => exact second
  | nest inner _ _ ih => simpa using Balanced.nest inner ih

theorem Leaves.append {word more : List ScopeTag} {stack : List (String × Position)} (leaves : Leaves word stack)
    (all : Balanced more) : Leaves (word ++ more) stack := by
  cases leaves with
  | balanced first => exact .balanced (first.append all)
  | opened before inner => simpa using Leaves.opened before (inner.append all)

/-! ### Following scope tags -/

/-- The open tags behind a scope tag. -/
def track (stack : List (String × Position)) : ScopeTag → Except Fault (List (String × Position))
  | .opens name start => .ok ((name, start) :: stack)
  | .closes found position =>
    match stack with
    | [] => .error (.sectionMismatch none (some found) position)
    | (name, _) :: rest =>
      if name = found then .ok rest else .error (.sectionMismatch (some name) (some found) position)

/-- At the end no tag may be open. -/
def settle : List (String × Position) → Except Fault Unit
  | [] => .ok ()
  | (name, start) :: _ => .error (.sectionMismatch (some name) none start)

/-- What a word comes to behind some open tags. -/
def verdict (stack : List (String × Position)) (word : List ScopeTag) : Except Fault Unit := do
  settle (← word.foldlM track stack)

section

variable {word before behind : List ScopeTag} {stack after : List (String × Position)} {fault : Fault} {b : ScopeTag}

theorem track_closes (name found : String) (start position : Position) (rest : List (String × Position)) :
    track ((name, start) :: rest) (.closes found position) =
      if name = found then .ok rest else .error (.sectionMismatch (some name) (some found) position) := rfl

theorem track_balanced (all : Balanced word) (stack : List (String × Position)) :
    word.foldlM track stack = .ok stack := by
  induction all generalizing stack with
  | nil => rfl
  | @nest name start stop inside rest _ _ inner outer =>
    rw [List.foldlM_cons, track]
    simp only [bind, Except.bind]
    rw [List.foldlM_append, inner]
    simp only [bind, Except.bind, List.foldlM_cons, track, if_pos]
    exact outer stack

theorem track_leaves (leaves : Leaves word stack) : word.foldlM track [] = .ok stack := by
  induction leaves with
  | balanced all => exact track_balanced all []
  | opened before inner ih =>
    rw [List.foldlM_append, ih]
    exact track_balanced inner _

theorem Leaves.tracked (leaves : Leaves word stack) (follows : track stack b = .ok after) :
    Leaves (word ++ [b]) after := by
  cases b with
  | opens name start =>
    cases follows
    exact .opened leaves .nil
  | closes found position =>
    cases leaves with
    | balanced all => cases follows
    | @opened word inside stack name start before inner =>
      rw [track_closes] at follows
      split at follows
      · next same =>
        cases follows
        subst same
        have closed : Balanced (.opens name start :: (inside ++ [.closes name position])) := .nest inner .nil
        simpa using before.append closed
      · cases follows

theorem mismatch_of_track (leaves : Leaves word stack) (refused : track stack b = .error fault)
    (behind : List ScopeTag) : Mismatch (word ++ b :: behind) fault := by
  cases b with
  | opens name start => cases refused
  | closes found position =>
    cases leaves with
    | balanced all =>
      cases refused
      exact .unopened all
    | @opened word inside stack name start before inner =>
      rw [track_closes] at refused
      split at refused
      · cases refused
      · next differs =>
        cases refused
        exact .other (.opened before inner) differs

/-- How a word goes on behind tags that are open. -/
theorem verdict_behind (leaves : Leaves before stack) :
    (verdict stack behind = .ok () → Balanced (before ++ behind)) ∧
      ∀ fault, verdict stack behind = .error fault → Mismatch (before ++ behind) fault := by
  induction behind generalizing before stack with
  | nil =>
    rw [List.append_nil]
    cases leaves with
    | balanced all => exact ⟨fun _ => all, nofun⟩
    | opened first inner =>
      refine ⟨nofun, fun fault refused => ?_⟩
      cases refused
      exact .unclosed (.opened first inner)
  | cons b behind ih =>
    rw [verdict, List.foldlM_cons]
    cases follows : track stack b with
    | error e =>
      refine ⟨nofun, fun fault refused => ?_⟩
      cases refused
      exact mismatch_of_track leaves follows behind
    | ok after =>
      have later := ih (leaves.tracked follows)
      rw [List.append_assoc] at later
      exact later

theorem verdict_ok_iff : verdict [] word = .ok () ↔ Balanced word := by
  refine ⟨(verdict_behind (.balanced .nil)).1, fun all => ?_⟩
  rw [verdict, track_balanced all]
  rfl

theorem verdict_error_iff : verdict [] word = .error fault ↔ Mismatch word fault := by
  refine ⟨(verdict_behind (.balanced .nil)).2 fault, fun wrong => ?_⟩
  cases wrong with
  | other leaves differs =>
    rw [verdict, List.foldlM_append, track_leaves leaves]
    simp [track, differs, bind, Except.bind]
  | unopened all =>
    rw [verdict, List.foldlM_append, track_balanced all]
    rfl
  | unclosed leaves =>
    rw [verdict, track_leaves leaves]
    rfl

end

end ScopeTag

/-! ## Reading tags -/

/-- The tags whose name refers to a value. -/
def TagKind.refers : TagKind → Bool
  | .interpolation | .unescaped | .sectionStart | .invertedStart => true
  | _ => false

/-- A name that refers to a value is a valid reference. -/
def Token.RefersWell : Token → Prop
  | .tag name kind => kind.refers = true → ValidReference name
  | _ => True

/-- The open tags behind a token. -/
def trackToken (stack : List (String × Position)) (t : LocatedToken) : Except Fault (List (String × Position)) :=
  match t.scopeTag? with
  | some b => ScopeTag.track stack b
  | none => .ok stack

theorem trackToken_of_not_tag {t : LocatedToken} (no_tag : t.token.isTag = false) (stack : List (String × Position)) :
    trackToken stack t = .ok stack := by
  unfold trackToken LocatedToken.scopeTag?
  cases kind : t.token <;> simp_all [Token.isTag]

theorem foldlM_scopeTags (tokens : List LocatedToken) (stack : List (String × Position)) :
    (scopeTags tokens).foldlM ScopeTag.track stack = tokens.foldlM trackToken stack := by
  induction tokens generalizing stack with
  | nil => rfl
  | cons t rest ih =>
    rw [List.foldlM_cons, scopeTags, List.filterMap_cons, trackToken]
    cases t.scopeTag? with
    | none => exact ih stack
    | some b =>
      rw [List.foldlM_cons]
      congr 1
      funext next
      exact ih next

/-- Tags contribute to the output on every line. -/
theorem Line.isTag_of_hidden {line : Line} {t : LocatedToken} (hidden : ¬ line.emits t = true) :
    t.token.isTag = false := by
  rw [emits, Bool.or_eq_true, not_or] at hidden
  exact Bool.eq_false_iff.mpr hidden.2

namespace Outline

variable {indent name : String} {line : Line} {position : Position} {kind : TagKind} {t : LocatedToken}

/-- The names and positions of the open tags, innermost first. -/
def openTags (o : Outline) : List (String × Position) := o.opened.map fun entry => (entry.1.name, entry.1.position)

theorem openTags_leave (o : Outline) (name : String) (position : Position) :
    (o.leave name position).map openTags = ScopeTag.track o.openTags (.closes name position) := by
  obtain ⟨stmts, opened⟩ := o
  cases opened with
  | nil => rfl
  | cons entry others =>
    obtain ⟨tag, before⟩ := entry
    by_cases same : tag.name = name
    · simp [leave, openTags, ScopeTag.track, same, Except.map]
    · simp [leave, openTags, ScopeTag.track, same, Except.map]

theorem map_withReference (valid : ValidReference name) (o : Outline) :
    (withReference name position o).map openTags = .ok o.openTags := by
  rw [withReference, if_pos valid]
  rfl

/-- A token does to the open tags what its scope tag does. -/
theorem openTags_readToken (o : Outline) (refers : t.token.RefersWell) :
    (o.readToken indent line t).map openTags = trackToken o.openTags t := by
  obtain ⟨token, position, _, _⟩ := t
  cases token with
  | text content => rfl
  | newline lineBreak => rfl
  | delimiters previous next => rfl
  | tag name kind =>
    cases kind with
    | interpolation => exact map_withReference (refers rfl) _
    | unescaped => exact map_withReference (refers rfl) _
    | sectionStart => exact map_withReference (refers rfl) _
    | invertedStart => exact map_withReference (refers rfl) _
    | scopeEnd => exact openTags_leave o name position
    | _ => rfl

theorem refersWell_of_readToken {o o' : Outline} (read : o.readToken indent line t = .ok o') : t.token.RefersWell := by
  obtain ⟨token, position, _, _⟩ := t
  cases token with
  | tag name kind =>
    intro refers
    cases kind with
    | interpolation => exact (withReference_ok read).1
    | unescaped => exact (withReference_ok read).1
    | sectionStart => exact (withReference_ok read).1
    | invertedStart => exact (withReference_ok read).1
    | _ => cases refers
  | _ => trivial

theorem openTags_indented (o : Outline) (indent : String) (line : Line) :
    (if line.standalone || indent.isEmpty then o else o.add (.text indent)).openTags = o.openTags := by
  split <;> rfl

/-- A line does to the open tags what its tokens do, whether they are written or not. -/
theorem openTags_readLine (o : Outline) (refers : ∀ t ∈ line.tokens, t.token.RefersWell) :
    (o.readLine indent line).map openTags = line.tokens.foldlM trackToken o.openTags := by
  rw [readLine, Line.emitted, List.foldlM_filter, ← openTags_indented o indent line]
  refine map_foldlM (fun t member s => ?_) _
  split
  · exact openTags_readToken s (refers t member)
  · next hidden =>
    rw [trackToken_of_not_tag (Line.isTag_of_hidden hidden)]
    rfl

theorem refersWell_of_readLine {o o' : Outline} (read : o.readLine indent line = .ok o') :
    ∀ t ∈ line.tokens, t.token.RefersWell := by
  intro t member
  by_cases shown : line.emits t = true
  · obtain ⟨u, v, one⟩ := exists_of_foldlM read t (List.mem_filter.mpr ⟨member, shown⟩)
    exact refersWell_of_readToken one
  · have no_tag := Line.isTag_of_hidden shown
    cases kind : t.token with
    | tag name kind' => simp [kind, Token.isTag] at no_tag
    | _ => trivial

theorem map_finish (o : Outline) : o.finish.map (fun _ => ()) = ScopeTag.settle o.openTags := by
  unfold finish openTags
  cases o.opened <;> rfl

end Outline

/-- What some lines come to depends on their scope tags alone, if their references are valid. -/
theorem map_readLines {lines : List Line} (indent : String)
    (refers : ∀ t ∈ lines.flatMap (·.tokens), t.token.RefersWell) :
    (readLines indent lines).map (fun _ => ()) = ScopeTag.verdict [] (scopeTags (lines.flatMap (·.tokens))) := by
  have one : ∀ line ∈ lines, ∀ o : Outline,
      (o.readLine indent line).map Outline.openTags = line.tokens.foldlM trackToken o.openTags :=
    fun line member o => o.openTags_readLine fun t inside => refers t (List.mem_flatMap.mpr ⟨line, member, inside⟩)
  have folded : (lines.foldlM (Outline.readLine indent) {}).map Outline.openTags =
      lines.foldlM (fun stack line => line.tokens.foldlM trackToken stack) [] := map_foldlM one ({} : Outline)
  rw [ScopeTag.verdict, foldlM_scopeTags, foldlM_flatMap, ← folded, readLines]
  cases lines.foldlM (Outline.readLine indent) {} with
  | error fault => rfl
  | ok o => exact o.map_finish

theorem refersWell_of_readLines {lines : List Line} {indent : String} {stmts : List Statement}
    (read : readLines indent lines = .ok stmts) : ∀ t ∈ lines.flatMap (·.tokens), t.token.RefersWell := by
  intro t member
  obtain ⟨line, listed, inside⟩ := List.mem_flatMap.mp member
  obtain ⟨o, folded, _⟩ := readLines_eq_ok.mp read
  obtain ⟨u, v, one⟩ := exists_of_foldlM folded line listed
  exact Outline.refersWell_of_readLine one t inside

/-- A source has statements exactly if it is read without a fault, its references are valid and its scope tags are
balanced. If only the last is missing, the fault is that of the scope tags. -/
theorem ofSource_accepts (source indent : String) :
    ((∃ stmts, Statement.ofSource source indent = .ok stmts) ↔
      (tokenize source).failure = none ∧ (∀ t ∈ (tokenize source).tokens, t.token.RefersWell) ∧
        ScopeTag.Balanced (scopeTags (tokenize source).tokens)) ∧
    ((tokenize source).failure = none → (∀ t ∈ (tokenize source).tokens, t.token.RefersWell) →
      ∀ fault, Statement.ofSource source indent = .error fault ↔
        ScopeTag.Mismatch (scopeTags (tokenize source).tokens) fault) := by
  have result (clean : (tokenize source).failure = none)
      (refers : ∀ t ∈ (tokenize source).tokens, t.token.RefersWell) :
      (Statement.ofSource source indent).map (fun _ => ()) = ScopeTag.verdict [] (scopeTags (tokenize source).tokens) := by
    rw [← tokens_of_lines clean] at refers ⊢
    rw [ofSource_eq_readLines clean]
    exact map_readLines indent refers
  refine ⟨⟨?_, ?_⟩, ?_⟩
  · rintro ⟨stmts, parsed⟩
    obtain ⟨clean, read⟩ := ofSource_eq_ok.mp parsed
    have refers := refersWell_of_readLines read
    rw [tokens_of_lines clean] at refers
    have accepted := result clean refers
    rw [parsed] at accepted
    exact ⟨clean, refers, ScopeTag.verdict_ok_iff.mp accepted.symm⟩
  · rintro ⟨clean, refers, all⟩
    have accepted := result clean refers
    rw [ScopeTag.verdict_ok_iff.mpr all] at accepted
    cases parsed : Statement.ofSource source indent with
    | ok stmts => exact ⟨stmts, rfl⟩
    | error fault => simp [parsed, Except.map] at accepted
  · intro clean refers fault
    rw [← ScopeTag.verdict_error_iff, ← result clean refers]
    cases Statement.ofSource source indent <;> simp [Except.map]

/-- A section and a parent that cross. -/
def crossedSource : String := "\x7b\x7b#a\x7d\x7d\x7b\x7b<b\x7d\x7d\x7b\x7b/a\x7d\x7d"

def crossedTags : List ScopeTag := [.opens "a" ⟨1, 1⟩, .opens "b" ⟨1, 7⟩, .closes "a" ⟨1, 13⟩]

theorem crossed_refused :
    ((tokenize crossedSource).failure = none ∧ ∀ t ∈ (tokenize crossedSource).tokens, t.token.RefersWell) ∧
      Statement.ofSource crossedSource "" = .error (.sectionMismatch (some "b") (some "a") ⟨1, 13⟩) := by
  have clean : (tokenize crossedSource).failure = none := by cbv
  have tokens : (tokenize crossedSource).tokens =
      [⟨.tag "a" .sectionStart, ⟨1, 1⟩, 0, "\x7b\x7b#a\x7d\x7d"⟩, ⟨.tag "b" .parentStart, ⟨1, 7⟩, 6, "\x7b\x7b<b\x7d\x7d"⟩,
        ⟨.tag "a" .scopeEnd, ⟨1, 13⟩, 12, "\x7b\x7b/a\x7d\x7d"⟩] := by cbv
  have refers : ∀ t ∈ (tokenize crossedSource).tokens, t.token.RefersWell := by
    have valid : ValidReference "a" := by decide
    simp [tokens, Token.RefersWell, valid, TagKind.refers]
  have word : scopeTags (tokenize crossedSource).tokens = crossedTags := by
    rw [tokens]
    rfl
  have open_tags : ScopeTag.Leaves [.opens "a" ⟨1, 1⟩, .opens "b" ⟨1, 7⟩] [("b", ⟨1, 7⟩), ("a", ⟨1, 1⟩)] :=
    .opened (.opened (.balanced .nil) .nil) .nil
  have crossed : ScopeTag.Mismatch (scopeTags (tokenize crossedSource).tokens)
      (.sectionMismatch (some "b") (some "a") ⟨1, 13⟩) := by
    rw [word]
    exact .other open_tags (by decide)
  exact ⟨⟨clean, refers⟩, ((ofSource_accepts crossedSource "").2 clean refers _).mpr crossed⟩

end Mustache

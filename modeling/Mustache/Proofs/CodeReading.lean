import Mustache.Code

/-!
# Programs read back from code

The code of a program is read back by taking its parts apart in the order in which they were put together: the words
of a path, the tokens inside brackets, the parts between commas. A reader gives a value exactly for the tokens that are
printed for it (`Reads`), from single literals up to whole programs (`readProgram?_eq_some_iff`), so different
programs have different code. Nodes are read to as many levels as there are brackets within each other.
-/

namespace Mustache.Code
open CodeToken

variable {α β : Type}

/-- A reader gives those values that are readable at all, each for its own print and nothing else. -/
def Reads (read : List CodeToken → Option α) (print : α → List CodeToken) (readable : α → Prop) : Prop :=
  ∀ tokens a, read tokens = some a ↔ tokens = print a ∧ readable a

/-! ## Words, literals and brackets -/

/-- What stands behind some words. -/
def behind? : List String → List CodeToken → Option (List CodeToken)
  | [], tokens => some tokens
  | spelling :: r, .word found :: tokens => if found = spelling then behind? r tokens else none
  | _ :: _, _ => none

def pathWords (names : List String) : List String := names.flatMap fun name => ["::", name]

/-- What is read of the last name of a path, which starts with a name of the library and one of a type, and of the
tokens behind it. -/
def variant? (type : String) (read : String → List CodeToken → Option α) (tokens : List CodeToken) : Option α :=
  match behind? (pathWords ["stache", type] ++ ["::"]) tokens with
  | some (.word name :: rest) => read name rest
  | _ => none

section

variable {spellings : List String} {tokens rest : List CodeToken} {type : String} {a : α}
  {read : String → List CodeToken → Option α}

theorem behind?_eq_some_iff : behind? spellings tokens = some rest ↔ tokens = words spellings ++ rest := by
  induction spellings generalizing tokens with
  | nil => simp [behind?, words, eq_comm]
  | cons spelling r ih =>
    rcases tokens with - | ⟨⟨found⟩ | - | - | -, more⟩
    · simp [behind?, words]
    · by_cases same : found = spelling
      · subst same
        simpa [behind?, words] using ih
      · simp [behind?, words, same]
    · simp [behind?, words]
    · simp [behind?, words]
    · simp [behind?, words]

theorem path_eq (names : List String) : path names = words (pathWords names) := by
  rw [path, words, pathWords, List.map_flatMap]
  rfl

theorem variant?_eq_some_iff : variant? type read tokens = some a ↔
    ∃ name rest, tokens = path ["stache", type, name] ++ rest ∧ read name rest = some a := by
  have printed (name : String) (rest : List CodeToken) :
      path ["stache", type, name] ++ rest = words (pathWords ["stache", type] ++ ["::"]) ++ .word name :: rest := rfl
  simp only [printed, ← behind?_eq_some_iff]
  constructor
  · intro found
    unfold variant? at found
    split at found
    · next name rest led => exact ⟨name, rest, led, found⟩
    · cases found
  · rintro ⟨name, rest, led, found⟩
    rw [variant?, led]
    exact found

end

def text? : List CodeToken → Option String
  | [.text content] => some content
  | _ => none

def size? : List CodeToken → Option Nat
  | [.size value] => some value
  | _ => none

def bool? : List CodeToken → Option Bool
  | [.word "true"] => some true
  | [.word "false"] => some false
  | _ => none

/-- What is read of the tokens inside brackets, if nothing stands beside them. -/
def inside? (bracket : Bracket) (read : List CodeToken → Option α) : List CodeToken → Option α
  | [.group found inner] => if found = bracket then read inner else none
  | _ => none

def field? (name : String) (read : List CodeToken → Option α) (tokens : List CodeToken) : Option α := do
  read (← behind? [name, ":"] tokens)

def ownedText? (tokens : List CodeToken) : Option String := do
  inside? .paren text? (← behind? (pathWords ["std", "convert", "From", "from"]) tokens)

section

variable {tokens : List CodeToken} {content name : String} {value : Nat} {flag : Bool} {bracket : Bracket} {a : α}
  {read : List CodeToken → Option α}

theorem text?_eq_some_iff : text? tokens = some content ↔ tokens = [.text content] := by
  constructor
  · intro found
    unfold text? at found
    split at found <;> simp_all
  · rintro rfl
    rfl

theorem size?_eq_some_iff : size? tokens = some value ↔ tokens = [.size value] := by
  constructor
  · intro found
    unfold size? at found
    split at found <;> simp_all
  · rintro rfl
    rfl

theorem bool?_eq_some_iff : bool? tokens = some flag ↔ tokens = [.word (toString flag)] := by
  constructor
  · intro found
    unfold bool? at found
    split at found
    · cases found
      rfl
    · cases found
      rfl
    · cases found
  · rintro rfl
    cases flag <;> rfl

theorem inside?_eq_some_iff :
    inside? bracket read tokens = some a ↔ ∃ inner, tokens = [.group bracket inner] ∧ read inner = some a := by
  constructor
  · intro found
    unfold inside? at found
    split at found
    · next kind inner =>
      by_cases same : kind = bracket
      · subst same
        exact ⟨inner, rfl, by simpa using found⟩
      · simp [same] at found
    · cases found
  · rintro ⟨inner, rfl, found⟩
    simpa [inside?] using found

theorem field?_eq_some_iff :
    field? name read tokens = some a ↔ ∃ inner, tokens = field name inner ∧ read inner = some a := by
  simp only [field?, bind, Option.bind_eq_some_iff, behind?_eq_some_iff]
  rfl

theorem ownedText?_eq_some_iff : ownedText? tokens = some content ↔ tokens = ownedText content := by
  simp only [ownedText?, bind, Option.bind_eq_some_iff, behind?_eq_some_iff, inside?_eq_some_iff, text?_eq_some_iff,
    ownedText, path_eq]
  simp

end

/-! ## Parts between commas -/

def isComma : CodeToken → Bool
  | .word "," => true
  | _ => false

/-- The tokens have no comma outside brackets. -/
def Unparted (tokens : List CodeToken) : Prop := ∀ t ∈ tokens, isComma t = false

/-- The parts that commas divide; a comma inside brackets divides nothing. -/
def parts (tokens : List CodeToken) : List (List CodeToken) := tokens.splitOnP isComma

/-- The values that parts between commas are read as. No tokens are no part. -/
def items? (read : List CodeToken → Option α) (tokens : List CodeToken) : Option (List α) :=
  if tokens.isEmpty then some [] else (parts tokens).mapM read

def list? (read : List CodeToken → Option α) (tokens : List CodeToken) : Option (List α) := do
  inside? .square (items? read) (← behind? (pathWords ["std", "vec"] ++ ["!"]) tokens)

section

variable {tokens : List CodeToken} {printed : List (List CodeToken)}

theorem commas_cons_cons (first second : List CodeToken) (rest : List (List CodeToken)) :
    commas (first :: second :: rest) = first ++ .word "," :: commas (second :: rest) := by
  rw [commas, List.intercalate_cons_cons, List.append_assoc]
  rfl

theorem commas_ne_nil {first : List CodeToken} (filled : first ≠ []) (rest : List (List CodeToken)) :
    commas (first :: rest) ≠ [] := by
  cases rest with
  | nil => simpa [commas, List.intercalate_singleton] using filled
  | cons second rest => simp [commas_cons_cons]

theorem parts_commas (filled : printed ≠ []) (unparted : ∀ part ∈ printed, Unparted part) :
    parts (commas printed) = printed := by
  induction printed with
  | nil => exact absurd rfl filled
  | cons first r ih =>
    have whole := unparted first List.mem_cons_self
    cases r with
    | nil =>
      rw [commas, List.intercalate_singleton]
      exact List.splitOnP_eq_singleton whole
    | cons second rest =>
      have later := ih (List.cons_ne_nil _ _) fun part member => unparted part (List.mem_cons_of_mem _ member)
      rw [commas_cons_cons, parts, List.splitOnP_append_cons_of_forall_mem whole _ rfl, ← parts, later]

theorem commas_parts (tokens : List CodeToken) : commas (parts tokens) = tokens := by
  induction tokens with
  | nil => rfl
  | cons t r ih =>
    have some_part : parts r ≠ [] := List.splitOnP_ne_nil isComma r
    rw [parts, List.splitOnP_cons_eq_if_modifyHead, ← parts]
    cases divided : parts r with
    | nil => exact absurd divided some_part
    | cons first rest =>
      rw [divided] at ih
      by_cases divides : isComma t = true
      · obtain rfl : t = .word "," := by
          unfold isComma at divides
          split at divides
          · rfl
          · cases divides
        rw [if_pos divides, commas_cons_cons, ih, List.nil_append]
      · rw [if_neg divides, List.modifyHead_cons, ← ih]
        cases rest with
        | nil => simp [commas, List.intercalate_singleton]
        | cons second rest => rw [commas_cons_cons, commas_cons_cons, List.cons_append]

theorem parts_eq_iff (filled : printed ≠ []) (unparted : ∀ part ∈ printed, Unparted part) :
    parts tokens = printed ↔ tokens = commas printed := by
  constructor
  · rintro rfl
    exact (commas_parts tokens).symm
  · rintro rfl
    exact parts_commas filled unparted

end

section

variable {tokens : List CodeToken} {values : List α} {read : List CodeToken → Option α} {print : α → List CodeToken}
  {readable : α → Prop}

theorem mapM_eq_some_iff (reads : Reads read print readable) {printed : List (List CodeToken)} :
    printed.mapM read = some values ↔ printed = values.map print ∧ ∀ a ∈ values, readable a := by
  induction printed generalizing values with
  | nil => cases values <;> simp
  | cons first r ih =>
    simp only [List.mapM_cons, bind, Option.bind_eq_some_iff, pure, Option.some.injEq, ih, reads first]
    constructor
    · rintro ⟨a, ⟨rfl, readable⟩, others, ⟨rfl, allReadable⟩, rfl⟩
      refine ⟨rfl, ?_⟩
      rintro b (_ | ⟨_, later⟩)
      · exact readable
      · exact allReadable b later
    · rintro ⟨printed, allReadable⟩
      cases values with
      | nil => cases printed
      | cons a others =>
        obtain ⟨rfl, rfl⟩ := List.cons.inj printed
        exact ⟨a, ⟨rfl, allReadable a List.mem_cons_self⟩, others,
          ⟨rfl, fun b later => allReadable b (List.mem_cons_of_mem _ later)⟩, rfl⟩

theorem list?_eq_some_iff (reads : Reads read print readable) (filled : ∀ a, print a ≠ [])
    (unparted : ∀ a, Unparted (print a)) :
    list? read tokens = some values ↔ tokens = list (values.map print) ∧ ∀ a ∈ values, readable a := by
  have items (inner : List CodeToken) :
      items? read inner = some values ↔ inner = commas (values.map print) ∧ ∀ a ∈ values, readable a := by
    by_cases empty : inner = []
    · subst empty
      cases values with
      | nil => simp [items?, commas]
      | cons a others =>
        have printed : [] ≠ commas (print a :: others.map print) := (commas_ne_nil (filled a) _).symm
        simp [items?, printed]
    · rw [items?, if_neg (by simpa using empty), mapM_eq_some_iff reads]
      refine and_congr_left fun _ => ?_
      cases values with
      | nil =>
        have divided : parts inner ≠ [] := List.splitOnP_ne_nil isComma inner
        simp [commas, empty, divided]
      | cons a others =>
        refine parts_eq_iff (List.cons_ne_nil _ _) fun part member => ?_
        obtain ⟨b, _, rfl⟩ := List.mem_map.mp member
        exact unparted b
  simp only [list?, bind, Option.bind_eq_some_iff, behind?_eq_some_iff, inside?_eq_some_iff, items]
  constructor
  · rintro ⟨_, rfl, inner, rfl, rfl, allReadable⟩
    exact ⟨rfl, allReadable⟩
  · rintro ⟨rfl, allReadable⟩
    exact ⟨_, rfl, _, rfl, rfl, allReadable⟩

end

section

variable {a b : List CodeToken} {name : String} {names : List String} {tokens : List CodeToken}

theorem unparted_nil : Unparted [] := fun _ member => absurd member List.not_mem_nil

theorem unparted_append : Unparted (a ++ b) ↔ Unparted a ∧ Unparted b := List.forall_mem_append

theorem unparted_word (apart : name ≠ ",") : Unparted [.word name] := by
  intro t member
  rw [List.mem_singleton.mp member]
  unfold isComma
  split
  · next same => exact absurd (CodeToken.word.inj same) apart
  · rfl

theorem unparted_text (content : String) : Unparted [.text content] := by
  simp [Unparted, isComma]

theorem unparted_size (value : Nat) : Unparted [.size value] := by
  simp [Unparted, isComma]

theorem unparted_group (bracket : Bracket) (inner : List CodeToken) : Unparted [.group bracket inner] := by
  simp [Unparted, isComma]

theorem unparted_path (apart : "," ∉ names) : Unparted (path names) := by
  intro t member
  obtain ⟨name, inPath, here⟩ := List.mem_flatMap.mp member
  simp only [List.mem_cons, List.not_mem_nil, or_false] at here
  rcases here with rfl | rfl
  · rfl
  · exact unparted_word (fun same => apart (same ▸ inPath)) _ List.mem_cons_self

theorem unparted_field (apart : name ≠ ",") : Unparted (field name tokens) ↔ Unparted tokens := by
  have split : field name tokens = [.word name] ++ ([.word ":"] ++ tokens) := rfl
  rw [split, unparted_append, unparted_append]
  simp [unparted_word apart, unparted_word]

end

theorem Reads.field {read : List CodeToken → Option α} {print : α → List CodeToken} {readable : α → Prop}
    (reads : Reads read print readable) (name : String) :
    Reads (field? name read) (fun a => field name (print a)) readable := by
  intro tokens a
  rw [field?_eq_some_iff]
  constructor
  · rintro ⟨inner, rfl, found⟩
    obtain ⟨rfl, readable⟩ := (reads inner a).mp found
    exact ⟨rfl, readable⟩
  · rintro ⟨rfl, readable⟩
    exact ⟨_, rfl, (reads _ a).mpr ⟨rfl, readable⟩⟩

theorem reads_of_iff {read : List CodeToken → Option α} {print : α → List CodeToken}
    (same : ∀ tokens a, read tokens = some a ↔ tokens = print a) : Reads read print fun _ => True := by
  intro tokens a
  rw [same, and_true]

theorem unparted_ownedText (content : String) : Unparted (ownedText content) :=
  unparted_append.mpr ⟨unparted_path (by decide), unparted_group _ _⟩

theorem unparted_list (printed : List (List CodeToken)) : Unparted (list printed) := by
  refine unparted_append.mpr ⟨unparted_path (by decide), ?_⟩
  have apart : Unparted ([.word "!"] ++ [.group .square (commas printed)]) :=
    unparted_append.mpr ⟨unparted_word (by decide), unparted_group _ _⟩
  exact apart

/-! ## Lookups and nodes -/

/-- Where a search starts, and along which path it goes. -/
def search? (tokens : List CodeToken) : Option (Nat × List String) :=
  match parts tokens with
  | [up, path] => do return (← field? "up" size? up, ← field? "path" (list? ownedText?) path)
  | _ => none

def lookupOf? (name : String) (tokens : List CodeToken) : Option Lookup :=
  match name, tokens with
  | "Current", rest => .current <$> inside? .brace (field? "up" size?) rest
  | "Frame", rest => (fun found => .frame found.1 found.2) <$> inside? .brace search? rest
  | "Search", rest => (fun found => .search found.1 found.2) <$> inside? .brace search? rest
  | "Missing", [] => some .missing
  | _, _ => none

def lookup? : List CodeToken → Option Lookup := variant? "Lookup" lookupOf?

theorem reads_up : Reads (field? "up" size?) (fun up => field "up" [.size up]) fun _ => True :=
  (reads_of_iff fun _ _ => size?_eq_some_iff).field "up"

theorem reads_segments :
    Reads (field? "path" (list? ownedText?)) (fun names => field "path" (list (names.map ownedText))) fun _ => True := by
  refine (reads_of_iff fun tokens names => ?_).field "path"
  rw [list?_eq_some_iff (reads_of_iff fun _ _ => ownedText?_eq_some_iff) (fun _ => by simp [ownedText, path])
    unparted_ownedText]
  simp

theorem search?_eq_some_iff {tokens : List CodeToken} {up : Nat} {segments : List String} :
    search? tokens = some (up, segments) ↔
      tokens = commas [field "up" [.size up], field "path" (list (segments.map ownedText))] := by
  have unparted : ∀ part ∈ [field "up" [.size up], field "path" (list (segments.map ownedText))], Unparted part := by
    intro part member
    simp only [List.mem_cons, List.not_mem_nil, or_false] at member
    rcases member with rfl | rfl
    · exact (unparted_field (by decide)).mpr (unparted_size up)
    · exact (unparted_field (by decide)).mpr (unparted_list _)
  rw [← parts_eq_iff (List.cons_ne_nil _ _) unparted]
  unfold search?
  constructor
  · intro found
    split at found
    · next first second divided =>
      simp only [bind, Option.bind_eq_some_iff, pure, Option.some.injEq, Prod.mk.injEq, reads_up first,
        reads_segments second] at found
      obtain ⟨_, ⟨rfl, _⟩, _, ⟨rfl, _⟩, rfl, rfl⟩ := found
      exact divided
    · cases found
  · intro divided
    rw [divided]
    simp only [(reads_up _ up).mpr ⟨rfl, trivial⟩, (reads_segments _ segments).mpr ⟨rfl, trivial⟩]
    rfl

theorem lookup?_eq_some_iff {tokens : List CodeToken} {lookup : Lookup} :
    lookup? tokens = some lookup ↔ tokens = ofLookup lookup := by
  rw [lookup?, variant?_eq_some_iff]
  constructor
  · rintro ⟨name, rest, rfl, read⟩
    unfold lookupOf? at read
    split at read
    · obtain ⟨up, found, rfl⟩ := Option.map_eq_some_iff.mp read
      obtain ⟨inner, rfl, within⟩ := inside?_eq_some_iff.mp found
      obtain ⟨rfl, _⟩ := (reads_up inner up).mp within
      rfl
    · obtain ⟨⟨up, segments⟩, found, rfl⟩ := Option.map_eq_some_iff.mp read
      obtain ⟨inner, rfl, within⟩ := inside?_eq_some_iff.mp found
      obtain rfl := search?_eq_some_iff.mp within
      rfl
    · obtain ⟨⟨up, segments⟩, found, rfl⟩ := Option.map_eq_some_iff.mp read
      obtain ⟨inner, rfl, within⟩ := inside?_eq_some_iff.mp found
      obtain rfl := search?_eq_some_iff.mp within
      rfl
    · cases read
      rfl
    · cases read
  · rintro rfl
    cases lookup with
    | current up =>
      refine ⟨"Current", _, rfl, ?_⟩
      have within : field? "up" size? (field "up" [.size up]) = some up := (reads_up _ up).mpr ⟨rfl, trivial⟩
      simp only [lookupOf?, inside?, if_true, within, Option.map_eq_map, Option.map_some]
    | frame up segments =>
      have within : search? (commas [field "up" [.size up], field "path" (list (segments.map ownedText))]) =
        some (up, segments) := search?_eq_some_iff.mpr rfl
      refine ⟨"Frame", _, rfl, ?_⟩
      simp only [lookupOf?, inside?, if_true, within, Option.map_eq_map, Option.map_some]
    | search up segments =>
      have within : search? (commas [field "up" [.size up], field "path" (list (segments.map ownedText))]) =
        some (up, segments) := search?_eq_some_iff.mpr rfl
      refine ⟨"Search", _, rfl, ?_⟩
      simp only [lookupOf?, inside?, if_true, within, Option.map_eq_map, Option.map_some]
    | missing => exact ⟨"Missing", [], by simp [ofLookup], rfl⟩

def kindOf? : String → List CodeToken → Option SectionKind
  | "Iterate", [] => some .iterate
  | "With", [] => some .within
  | "Condition", [] => some .condition
  | "Inverted", [] => some .inverted
  | "Dynamic", [] => some .dynamic
  | _, _ => none

def kind? : List CodeToken → Option SectionKind := variant? "SectionKind" kindOf?

def interpolation? (tokens : List CodeToken) : Option Node :=
  match parts tokens with
  | [lookup, escape] => do return .interpolation (← field? "lookup" lookup? lookup) (← field? "escape" bool? escape)
  | _ => none

section

variable (read : List CodeToken → Option Node)

def sect? (tokens : List CodeToken) : Option Node :=
  match parts tokens with
  | [lookup, kind, body, []] => do
    return .sect (← field? "lookup" lookup? lookup) (← field? "kind" kind? kind) (← field? "body" (list? read) body)
  | _ => none

def lambda? (tokens : List CodeToken) : Option Node :=
  match parts tokens with
  | [name, body, []] => do return .lambda (← field? "name" ownedText? name) (← field? "body" (list? read) body)
  | _ => none

/-- A node, given how those of its body are read. -/
def nodeOf? (name : String) (tokens : List CodeToken) : Option Node :=
  match name, tokens with
  | "Text", rest => .text <$> inside? .paren ownedText? rest
  | "Variable", rest => inside? .brace interpolation? rest
  | "Section", rest => inside? .brace (sect? read) rest
  | "Lambda", rest => inside? .brace (lambda? read) rest
  | _, _ => none

end

/-- A node whose body goes at most so many levels down. -/
def node? : Nat → List CodeToken → Option Node
  | 0 => fun _ => none
  | levels + 1 => variant? "Node" (nodeOf? (node? levels))

mutual
/-- How many levels of nodes there are. -/
def height : Node → Nat
  | .text _ | .interpolation _ _ => 1
  | .sect _ _ body | .lambda _ body => heightAll body + 1

def heightAll : List Node → Nat
  | [] => 0
  | n :: r => max (height n) (heightAll r)
end

def children : Node → List Node
  | .text _ | .interpolation _ _ => []
  | .sect _ _ body | .lambda _ body => body

section

variable {tokens : List CodeToken} {kind : SectionKind} {read : List CodeToken → Option Node} {readable : Node → Prop}
  {n : Node} {levels : Nat}

theorem kind?_eq_some_iff : kind? tokens = some kind ↔ tokens = path ["stache", "SectionKind", kindName kind] := by
  rw [kind?, variant?_eq_some_iff]
  constructor
  · rintro ⟨name, rest, rfl, found⟩
    unfold kindOf? at found
    split at found <;> cases found <;> rfl
  · rintro rfl
    refine ⟨kindName kind, [], (List.append_nil _).symm, ?_⟩
    cases kind <;> rfl

theorem reads_lookup : Reads (field? "lookup" lookup?) (fun lookup => field "lookup" (ofLookup lookup)) fun _ => True :=
  (reads_of_iff fun _ _ => lookup?_eq_some_iff).field "lookup"

theorem unparted_ofLookup (lookup : Lookup) : Unparted (ofLookup lookup) := by
  cases lookup with
  | current up => exact unparted_append.mpr ⟨unparted_path (by decide), unparted_group _ _⟩
  | frame up segments => exact unparted_append.mpr ⟨unparted_path (by decide), unparted_group _ _⟩
  | search up segments => exact unparted_append.mpr ⟨unparted_path (by decide), unparted_group _ _⟩
  | missing => exact unparted_path (by decide)

theorem unparted_ofNode (n : Node) : Unparted (ofNode n) := by
  cases n with
  | text content => exact unparted_append.mpr ⟨unparted_path (by decide), unparted_group _ _⟩
  | interpolation lookup escape => exact unparted_append.mpr ⟨unparted_path (by decide), unparted_group _ _⟩
  | sect lookup kind body => exact unparted_append.mpr ⟨unparted_path (by decide), unparted_group _ _⟩
  | lambda name body => exact unparted_append.mpr ⟨unparted_path (by decide), unparted_group _ _⟩

theorem ofNode_ne_nil (n : Node) : ofNode n ≠ [] := by
  cases n <;> simp [ofNode, path]

theorem ofNodes_eq_map (nodes : List Node) : ofNodes nodes = nodes.map ofNode := by
  induction nodes with
  | nil => rfl
  | cons n r ih => rw [ofNodes, ih, List.map_cons]

theorem reads_body (reads : Reads read ofNode readable) :
    Reads (list? read) (fun body => list (ofNodes body)) fun body => ∀ child ∈ body, readable child := by
  intro tokens body
  rw [list?_eq_some_iff reads ofNode_ne_nil unparted_ofNode]
  simp only [ofNodes_eq_map]

theorem interpolation?_eq_some_iff : interpolation? tokens = some n ↔ ∃ lookup escape, n = .interpolation lookup escape ∧
    tokens = commas [field "lookup" (ofLookup lookup), field "escape" [.word (toString escape)]] := by
  have reads_escape : Reads (field? "escape" bool?) (fun flag => field "escape" [.word (toString flag)]) fun _ => True :=
    (reads_of_iff fun _ _ => bool?_eq_some_iff).field "escape"
  constructor
  · intro found
    unfold interpolation? at found
    split at found
    · next first second divided =>
      simp only [bind, Option.bind_eq_some_iff, pure, Option.some.injEq, reads_lookup first, reads_escape second] at found
      obtain ⟨lookup, ⟨rfl, _⟩, escape, ⟨rfl, _⟩, rfl⟩ := found
      exact ⟨lookup, escape, rfl, by rw [← divided, commas_parts]⟩
    · cases found
  · rintro ⟨lookup, escape, rfl, rfl⟩
    have unparted : ∀ part ∈ [field "lookup" (ofLookup lookup), field "escape" [.word (toString escape)]],
        Unparted part := by
      simp only [List.forall_mem_cons]
      refine ⟨(unparted_field (by decide)).mpr (unparted_ofLookup lookup), (unparted_field (by decide)).mpr ?_,
        List.forall_mem_nil _⟩
      cases escape <;> exact unparted_word (by decide)
    rw [interpolation?, parts_commas (List.cons_ne_nil _ _) unparted]
    simp only [(reads_lookup _ lookup).mpr ⟨rfl, trivial⟩, (reads_escape _ escape).mpr ⟨rfl, trivial⟩]
    rfl

theorem sect?_eq_some_iff (reads : Reads read ofNode readable) : sect? read tokens = some n ↔
    ∃ lookup kind body, n = .sect lookup kind body ∧ (∀ child ∈ body, readable child) ∧
      tokens = commas [field "lookup" (ofLookup lookup), field "kind" (path ["stache", "SectionKind", kindName kind]),
        field "body" (list (ofNodes body)), []] := by
  have reads_kind := (reads_of_iff fun _ _ => kind?_eq_some_iff).field "kind"
  have reads_body := (reads_body reads).field "body"
  constructor
  · intro found
    unfold sect? at found
    split at found
    · next first second third divided =>
      simp only [bind, Option.bind_eq_some_iff, pure, Option.some.injEq, reads_lookup first, reads_kind second,
        reads_body third] at found
      obtain ⟨lookup, ⟨rfl, _⟩, kind, ⟨rfl, _⟩, body, ⟨rfl, all⟩, rfl⟩ := found
      exact ⟨lookup, kind, body, rfl, all, by rw [← divided, commas_parts]⟩
    · cases found
  · rintro ⟨lookup, kind, body, rfl, all, rfl⟩
    have unparted : ∀ part ∈ [field "lookup" (ofLookup lookup),
        field "kind" (path ["stache", "SectionKind", kindName kind]), field "body" (list (ofNodes body)), []],
        Unparted part := by
      simp only [List.forall_mem_cons]
      refine ⟨(unparted_field (by decide)).mpr (unparted_ofLookup lookup), (unparted_field (by decide)).mpr ?_,
        (unparted_field (by decide)).mpr (unparted_list _), unparted_nil, List.forall_mem_nil _⟩
      cases kind <;> exact unparted_path (by decide)
    rw [sect?, parts_commas (List.cons_ne_nil _ _) unparted]
    simp only [(reads_lookup _ lookup).mpr ⟨rfl, trivial⟩, (reads_kind _ kind).mpr ⟨rfl, trivial⟩,
      (reads_body _ body).mpr ⟨rfl, all⟩]
    rfl

theorem lambda?_eq_some_iff (reads : Reads read ofNode readable) : lambda? read tokens = some n ↔
    ∃ name body, n = .lambda name body ∧ (∀ child ∈ body, readable child) ∧
      tokens = commas [field "name" (ownedText name), field "body" (list (ofNodes body)), []] := by
  have reads_name := (reads_of_iff fun _ _ => ownedText?_eq_some_iff).field "name"
  have reads_body := (reads_body reads).field "body"
  constructor
  · intro found
    unfold lambda? at found
    split at found
    · next first second divided =>
      simp only [bind, Option.bind_eq_some_iff, pure, Option.some.injEq, reads_name first, reads_body second] at found
      obtain ⟨name, ⟨rfl, _⟩, body, ⟨rfl, all⟩, rfl⟩ := found
      exact ⟨name, body, rfl, all, by rw [← divided, commas_parts]⟩
    · cases found
  · rintro ⟨name, body, rfl, all, rfl⟩
    have unparted : ∀ part ∈ [field "name" (ownedText name), field "body" (list (ofNodes body)), []], Unparted part := by
      simp only [List.forall_mem_cons]
      exact ⟨(unparted_field (by decide)).mpr (unparted_ownedText name),
        (unparted_field (by decide)).mpr (unparted_list _), unparted_nil, List.forall_mem_nil _⟩
    rw [lambda?, parts_commas (List.cons_ne_nil _ _) unparted]
    simp only [(reads_name _ name).mpr ⟨rfl, trivial⟩, (reads_body _ body).mpr ⟨rfl, all⟩]
    rfl

/-- A node is read exactly where it is printed, if that holds of the nodes of its body. -/
theorem reads_nodeOf? (reads : Reads read ofNode readable) :
    Reads (variant? "Node" (nodeOf? read)) ofNode fun n => ∀ child ∈ children n, readable child := by
  intro tokens n
  rw [variant?_eq_some_iff]
  constructor
  · rintro ⟨name, rest, rfl, found⟩
    unfold nodeOf? at found
    split at found
    · obtain ⟨content, within, rfl⟩ := Option.map_eq_some_iff.mp found
      obtain ⟨inner, rfl, owned⟩ := inside?_eq_some_iff.mp within
      obtain rfl := ownedText?_eq_some_iff.mp owned
      exact ⟨rfl, List.forall_mem_nil _⟩
    · obtain ⟨inner, rfl, within⟩ := inside?_eq_some_iff.mp found
      obtain ⟨lookup, escape, rfl, rfl⟩ := interpolation?_eq_some_iff.mp within
      exact ⟨rfl, List.forall_mem_nil _⟩
    · obtain ⟨inner, rfl, within⟩ := inside?_eq_some_iff.mp found
      obtain ⟨lookup, kind, body, rfl, all, rfl⟩ := (sect?_eq_some_iff reads).mp within
      exact ⟨by rw [ofNode], all⟩
    · obtain ⟨inner, rfl, within⟩ := inside?_eq_some_iff.mp found
      obtain ⟨name, body, rfl, all, rfl⟩ := (lambda?_eq_some_iff reads).mp within
      exact ⟨by rw [ofNode], all⟩
    · cases found
  · rintro ⟨rfl, all⟩
    cases n with
    | text content =>
      have within : ownedText? (ownedText content) = some content := ownedText?_eq_some_iff.mpr rfl
      refine ⟨"Text", [.group .paren (ownedText content)], rfl, ?_⟩
      simp only [nodeOf?, inside?, if_true, within, Option.map_eq_map, Option.map_some]
    | interpolation lookup escape =>
      have within := interpolation?_eq_some_iff.mpr ⟨lookup, escape, rfl, rfl⟩
      refine ⟨"Variable", _, by rw [ofNode], ?_⟩
      simp only [nodeOf?, inside?, if_true, within]
    | sect lookup kind body =>
      have within := (sect?_eq_some_iff reads).mpr ⟨lookup, kind, body, rfl, all, rfl⟩
      refine ⟨"Section", _, by rw [ofNode], ?_⟩
      simp only [nodeOf?, inside?, if_true, within]
    | lambda name body =>
      have within := (lambda?_eq_some_iff reads).mpr ⟨name, body, rfl, all, rfl⟩
      refine ⟨"Lambda", _, by rw [ofNode], ?_⟩
      simp only [nodeOf?, inside?, if_true, within]

theorem heightAll_le_iff {nodes : List Node} : heightAll nodes ≤ levels ↔ ∀ n ∈ nodes, height n ≤ levels := by
  induction nodes with
  | nil => simp [heightAll]
  | cons n r ih => rw [heightAll, Nat.max_le, ih, List.forall_mem_cons]

theorem height_eq (n : Node) : height n = heightAll (children n) + 1 := by
  cases n <;> simp only [height, children, heightAll]

/-- Nodes are read as far down as the levels go. -/
theorem reads_node? (levels : Nat) : Reads (node? levels) ofNode fun n => height n ≤ levels := by
  induction levels with
  | zero =>
    intro tokens n
    have taller : ¬ height n ≤ 0 := by
      rw [height_eq]
      omega
    simp [node?, taller]
  | succ levels ih =>
    intro tokens n
    have taller : (∀ child ∈ children n, height child ≤ levels) ↔ height n ≤ levels + 1 := by
      rw [← heightAll_le_iff, height_eq, Nat.add_le_add_iff_right]
    rw [node?, reads_nodeOf? ih]
    exact and_congr_right fun _ => taller

end

/-! ## Programs -/

mutual
/-- How many brackets stand within each other. -/
def depth : CodeToken → Nat
  | .word _ | .text _ | .size _ => 0
  | .group _ inner => depthAll inner + 1

def depthAll : List CodeToken → Nat
  | [] => 0
  | t :: r => max (depth t) (depthAll r)
end

section

theorem depthAll_append (a b : List CodeToken) : depthAll (a ++ b) = max (depthAll a) (depthAll b) := by
  induction a with
  | nil => simp [depthAll]
  | cons t r ih => rw [List.cons_append, depthAll, ih, depthAll, Nat.max_assoc]

theorem depthAll_commas_cons (first : List CodeToken) (rest : List (List CodeToken)) :
    depthAll (commas (first :: rest)) = max (depthAll first) (depthAll (commas rest)) := by
  cases rest with
  | nil => simp [commas, List.intercalate_singleton, depthAll]
  | cons second rest => simp [commas_cons_cons, depthAll_append, depthAll, depth]

theorem depthAll_path (names : List String) : depthAll (path names) = 0 := by
  induction names with
  | nil => rfl
  | cons name r ih =>
    have split : path (name :: r) = .word "::" :: .word name :: path r := rfl
    rw [split, depthAll, depthAll, ih]
    rfl

theorem depthAll_list (printed : List (List CodeToken)) : depthAll (list printed) = depthAll (commas printed) + 1 := by
  simp [list, depthAll_append, depthAll_path, depthAll, depth]

theorem depthAll_field (name : String) (value : List CodeToken) : depthAll (field name value) = depthAll value := by
  simp [field, depthAll, depth]

end

mutual
/-- Every level of nodes is printed inside brackets of its own. -/
theorem height_le_depthAll : ∀ n : Node, height n ≤ depthAll (ofNode n)
  | .text _ => by
    simp only [height, ofNode, depthAll_append, depthAll, depth]
    omega
  | .interpolation _ _ => by
    simp only [height, ofNode, depthAll_append, depthAll, depth]
    omega
  | .sect _ _ body => by
    have within := heightAll_le_depthAll body
    simp only [height, ofNode, depthAll_append, depthAll, depth, depthAll_commas_cons, depthAll_field, depthAll_list]
    omega
  | .lambda _ body => by
    have within := heightAll_le_depthAll body
    simp only [height, ofNode, depthAll_append, depthAll, depth, depthAll_commas_cons, depthAll_field, depthAll_list]
    omega

theorem heightAll_le_depthAll : ∀ nodes : List Node, heightAll nodes ≤ depthAll (commas (ofNodes nodes))
  | [] => Nat.zero_le _
  | n :: r => by
    have first := height_le_depthAll n
    have rest := heightAll_le_depthAll r
    simp only [heightAll, ofNodes, depthAll_commas_cons]
    omega
end

/-- What a program is made of: its name and its nodes. -/
def call? (levels : Nat) (tokens : List CodeToken) : Option Program :=
  match parts tokens with
  | [name, nodes] => do return ⟨← text? name, ← list? (node? levels) nodes⟩
  | _ => none

def programOf? (levels : Nat) (name : String) (tokens : List CodeToken) : Option Program :=
  match name, tokens with
  | "new", rest => inside? .paren (call? levels) rest
  | _, _ => none

/-- The program of some code. -/
def readProgram? (tokens : List CodeToken) : Option Program := variant? "Program" (programOf? (depthAll tokens)) tokens

theorem readProgram?_eq_some_iff {tokens : List CodeToken} {p : Program} :
    readProgram? tokens = some p ↔ tokens = ofProgram p := by
  have reads_nodes (levels : Nat) := reads_body (reads_node? levels)
  rw [readProgram?, variant?_eq_some_iff]
  constructor
  · rintro ⟨name, rest, printed, found⟩
    unfold programOf? at found
    split at found
    · obtain ⟨inner, rfl, within⟩ := inside?_eq_some_iff.mp found
      unfold call? at within
      split at within
      · next first second divided =>
        simp only [bind, Option.bind_eq_some_iff, pure, Option.some.injEq, text?_eq_some_iff,
          reads_nodes _ second] at within
        obtain ⟨name, rfl, nodes, ⟨rfl, _⟩, rfl⟩ := within
        rw [printed, ofProgram, ← divided, commas_parts]
      · cases within
    · cases found
  · intro printed
    obtain ⟨name, nodes⟩ := p
    have room : ∀ n ∈ nodes, height n ≤ depthAll tokens := by
      refine heightAll_le_iff.mp (Nat.le_trans (heightAll_le_depthAll nodes) ?_)
      rw [printed, ofProgram]
      simp only [depthAll_append, depthAll, depth, depthAll_commas_cons, depthAll_list]
      omega
    have unparted : ∀ part ∈ [[.text name], list (ofNodes nodes)], Unparted part := by
      simp only [List.forall_mem_cons]
      exact ⟨unparted_text name, unparted_list _, List.forall_mem_nil _⟩
    refine ⟨"new", _, printed, ?_⟩
    simp only [programOf?, inside?, if_true, call?, parts_commas (List.cons_ne_nil _ _) unparted,
      (reads_nodes _ _ nodes).mpr ⟨rfl, room⟩]
    rfl

/-- There is a reader of code that gives exactly the program that was printed, so programs with the same code are
the same. -/
theorem code_determines_program :
    (∀ tokens p, readProgram? tokens = some p ↔ tokens = ofProgram p) ∧ ∀ p q, ofProgram p = ofProgram q ↔ p = q := by
  refine ⟨fun tokens p => readProgram?_eq_some_iff, fun p q => ⟨fun same => ?_, fun same => same ▸ rfl⟩⟩
  have first : readProgram? (ofProgram p) = some p := readProgram?_eq_some_iff.mpr rfl
  have second : readProgram? (ofProgram p) = some q := readProgram?_eq_some_iff.mpr same
  exact Option.some.inj (first.symm.trans second)

end Mustache.Code

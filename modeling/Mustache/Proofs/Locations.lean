import Mathlib
import Mustache.FileLoader
import Mustache.FileTree

/-!
# Where files are

A path leads to a place in the tree of all files: from the root, or from the working directory, one name after the
other. The path that a loader resolves has neither `.` nor `..`, and it leads where the joined path leads as long as
that never goes above its start (`FileLoader.resolve_keeps_location`). Normalizing takes the start for a root, so a
relative path that does go above its start leads elsewhere once it is normalized.
-/

namespace Mustache

/-! ## Places -/

namespace Path

/-- Where a path starts: at the root, or in the working directory. A place is the names that lead there from the
root. -/
def start (cwd : List String) (p : Path) : List String := if p.rooted then [] else cwd

/-- One step in a tree without links. The root is above itself. -/
def stepPlace (place : List String) (name : String) : List String :=
  if name = "." then place else if name = ".." then place.dropLast else place ++ [name]

/-- Where a path leads. -/
def location (cwd : List String) (p : Path) : List String := p.names.foldl stepPlace (p.start cwd)

/-- A name that leads one directory down. -/
def Leads (name : String) : Prop := name ≠ "." ∧ name ≠ ".."

instance : DecidablePred Leads := fun _ => inferInstanceAs (Decidable (_ ∧ _))

/-- The path starts at the root, or at no point of it more names have led up than down. -/
def Inside (p : Path) : Prop :=
  p.rooted = true ∨ ∀ before, before <+: p.names → before.count ".." ≤ before.countP (Leads ·)

/-- How many names lead above the start, if the start lies so many directories deep. -/
def climb (depth : Nat) : List String → Nat
  | [] => 0
  | name :: r =>
    if name = "." then climb depth r
    else if name = ".." then climb (depth - 1) r + (if depth = 0 then 1 else 0)
    else climb (depth + 1) r

section

variable {name : String} {names : List String} {depth : Nat}

theorem forall_prefix_cons_iff {motive : List String → Prop} (empty : motive []) :
    (∀ before, before <+: name :: names → motive before) ↔ ∀ before, before <+: names → motive (name :: before) := by
  constructor
  · intro all before within
    exact all _ (List.cons_prefix_cons.mpr ⟨rfl, within⟩)
  · intro all before within
    cases before with
    | nil => exact empty
    | cons first more =>
      obtain ⟨rfl, rest⟩ := List.cons_prefix_cons.mp within
      exact all more rest

/-- No name leads above the start exactly where at no point more have led up than down. -/
theorem climb_eq_zero_iff :
    climb depth names = 0 ↔ ∀ before, before <+: names → before.count ".." ≤ depth + before.countP (Leads ·) := by
  induction names generalizing depth with
  | nil => simp [climb]
  | cons name r ih =>
    rw [forall_prefix_cons_iff (by simp), climb]
    by_cases stays : name = "."
    · subst stays
      simp [ih, Leads]
    · by_cases up : name = ".."
      · subst up
        have counted (before : List String) : (".." :: before).countP (Leads ·) = before.countP (Leads ·) := by
          simp [Leads]
        simp only [stays, if_false, if_true, List.count_cons_self, counted]
        by_cases atStart : depth = 0
        · subst atStart
          constructor
          · intro none
            simp at none
          · intro all
            have first := all [] List.nil_prefix
            simp at first
        · simp only [atStart, if_false, Nat.add_zero, ih]
          refine forall₂_congr fun before _ => ?_
          omega
      · have leads : Leads name := ⟨stays, up⟩
        have counted (before : List String) : (name :: before).countP (Leads ·) = before.countP (Leads ·) + 1 := by
          simp [leads]
        simp only [stays, up, if_false, ih, List.count_cons_of_ne up, counted]
        refine forall₂_congr fun before _ => ?_
        omega

end

theorem inside_iff (p : Path) : p.Inside ↔ p.rooted = true ∨ climb 0 p.names = 0 := by
  simp only [Inside, climb_eq_zero_iff, Nat.zero_add]

/-! ## Normalized paths -/

section

variable {names stack place : List String} {cwd : List String} {p : Path}

theorem leads_of_mem_steps (led : ∀ name ∈ stack, Leads name) : ∀ name ∈ names.foldl stepNormal stack, Leads name := by
  induction names generalizing stack with
  | nil => exact led
  | cons first r ih =>
    refine ih ?_
    unfold stepNormal
    by_cases stays : first = "."
    · simpa [stays] using led
    · by_cases up : first = ".."
      · subst up
        simp only [stays, if_false, if_true]
        intro name member
        exact led name (List.mem_of_mem_tail member)
      · simp only [stays, up, if_false, List.mem_cons]
        rintro name (rfl | old)
        · exact ⟨stays, up⟩
        · exact led name old

/-- A normalized path has no `.` and no `..`. -/
theorem leads_of_mem_normalize : ∀ name ∈ p.normalize.names, Leads name := by
  intro name member
  exact leads_of_mem_steps (fun _ absurdly => absurd absurdly List.not_mem_nil) name (List.mem_reverse.mp member)

theorem foldl_stepPlace_of_leads (led : ∀ name ∈ names, Leads name) (place : List String) :
    names.foldl stepPlace place = place ++ names := by
  induction names generalizing place with
  | nil => simp
  | cons name r ih =>
    obtain ⟨stays, up⟩ := led name List.mem_cons_self
    rw [List.foldl_cons, ih fun later member => led later (List.mem_cons_of_mem _ member), stepPlace]
    simp [stays, up]

/-- Names lead as far up from a place as they lead above the start, and then where the normalized names lead. -/
theorem foldl_stepPlace_eq (names place stack : List String) :
    names.foldl stepPlace (place ++ stack.reverse) =
      place.take (place.length - climb stack.length names) ++ (names.foldl stepNormal stack).reverse := by
  induction names generalizing place stack with
  | nil => simp [climb]
  | cons name r ih =>
    rw [List.foldl_cons, List.foldl_cons, climb]
    by_cases stays : name = "."
    · simp only [stepPlace, stepNormal, stays, if_true, ih]
    · by_cases up : name = ".."
      · subst up
        cases stack with
        | nil =>
          -- The names lead above the start.
          have higher := ih place.dropLast []
          simp only [List.reverse_nil, List.append_nil, List.length_nil] at higher
          simp only [stepPlace, stepNormal, stays, if_false, if_true, List.reverse_nil, List.append_nil,
            List.length_nil, List.tail_nil, Nat.zero_sub, higher]
          rw [List.dropLast_eq_take, List.take_take, List.length_take]
          congr 2
          omega
        | cons last below =>
          have back : stepPlace (place ++ (last :: below).reverse) ".." = place ++ below.reverse := by
            rw [List.reverse_cons, ← List.append_assoc]
            simp [stepPlace]
          rw [back, ih]
          simp [stepNormal]
      · have down : stepPlace (place ++ stack.reverse) name = place ++ (name :: stack).reverse := by
          simp [stepPlace, stays, up]
        rw [down, ih]
        simp [stepNormal, stays, up]

@[simp] theorem start_normalize : p.normalize.start cwd = p.start cwd := rfl

theorem location_normalize : p.normalize.location cwd = p.start cwd ++ p.normalize.names := by
  rw [location, foldl_stepPlace_of_leads leads_of_mem_normalize, start_normalize]

theorem location_eq : p.location cwd =
    (p.start cwd).take ((p.start cwd).length - climb 0 p.names) ++ p.normalize.names := by
  have led := foldl_stepPlace_eq p.names (p.start cwd) []
  simpa [location, normalize] using led

/-- A path leads where it leads when it is normalized, if it stays inside its start or the start is the root. -/
theorem location_normalize_eq_iff : p.normalize.location cwd = p.location cwd ↔ p.Inside ∨ cwd = [] := by
  rw [location_normalize, location_eq, List.append_left_inj, inside_iff, or_assoc]
  constructor
  · intro same
    have long := congrArg List.length same
    rw [List.length_take] at long
    cases rooted : p.rooted with
    | true => exact .inl rfl
    | false =>
      simp only [start, rooted, Bool.false_eq_true, if_false] at long
      by_cases low : climb 0 p.names = 0
      · exact .inr (.inl low)
      · refine .inr (.inr (List.length_eq_zero_iff.mp ?_))
        omega
  · rintro (rooted | low | rfl)
    · simp [start, rooted]
    · simp [low]
    · simp [start]

end

end Path

/-! ## Files -/

namespace FileTree
open Mustache.Path

/-- What names lead to, if it is there. -/
def at? : FileTree → List String → Option FileTree
  | t, [] => some t
  | .directory entries, name :: r => (Dictionary.find? name entries).bind fun entry => at? entry r
  | .file _, _ :: _ => none

/-- Where names lead from a place, if every directory on the way is there. -/
def walk? (root : FileTree) (place : List String) : List String → Option (List String)
  | [] => some place
  | name :: r =>
    match root.at? place with
    | some (.directory _) => walk? root (stepPlace place name) r
    | _ => none

def content? : FileTree → Option ByteArray
  | .file content => some content
  | .directory _ => none

/-- The content of the file at a path. The empty path is the path of no file. -/
def contentAt? (root : FileTree) (cwd : List String) (p : Path) : Option ByteArray :=
  if p.rooted = false ∧ p.names = [] then none
  else (root.walk? (p.start cwd) p.names).bind fun place => (root.at? place).bind content?

section

variable {root : FileTree} {place place' names : List String} {cwd : List String} {p : Path}

theorem at?_append (t : FileTree) (a b : List String) : t.at? (a ++ b) = (t.at? a).bind fun entry => entry.at? b := by
  induction a generalizing t with
  | nil => simp [at?]
  | cons name r ih =>
    cases t with
    | file content => rfl
    | directory entries =>
      simp only [List.cons_append, at?, Option.bind_assoc, ih]

theorem eq_of_walk? (walked : root.walk? place names = some place') : place' = names.foldl stepPlace place := by
  induction names generalizing place with
  | nil => exact (Option.some.inj walked).symm
  | cons name r ih =>
    rw [walk?] at walked
    split at walked
    · exact ih walked
    · cases walked

theorem walk?_of_at? {t : FileTree} (led : ∀ name ∈ names, Leads name) (found : root.at? (place ++ names) = some t) :
    root.walk? place names = some (place ++ names) := by
  induction names generalizing place with
  | nil => simp [walk?]
  | cons name r ih =>
    obtain ⟨stays, up⟩ := led name List.mem_cons_self
    have down : stepPlace place name = place ++ [name] := by simp [stepPlace, stays, up]
    have further : place ++ name :: r = place ++ [name] ++ r := by simp
    have later := ih (fun later member => led later (List.mem_cons_of_mem _ member)) (further ▸ found)
    rw [at?_append, Option.bind_eq_some_iff] at found
    obtain ⟨here, atPlace, below⟩ := found
    cases here with
    | file content => cases below
    | directory entries => simp only [walk?, atPlace, down, later, further]

/-- Where all directories on the way are there, the normalized path is a path of the same file. -/
theorem contentAt?_normalize (same : p.normalize.location cwd = p.location cwd)
    (walked : (root.walk? (p.start cwd) p.names).isSome = true) :
    root.contentAt? cwd p.normalize = root.contentAt? cwd p := by
  obtain ⟨place, walked⟩ := Option.isSome_iff_exists.mp walked
  have there : place = p.start cwd ++ p.normalize.names := by
    rw [eq_of_walk? walked, ← location_normalize, same, location]
  by_cases empty : p.rooted = false ∧ p.names = []
  · have plain : p.normalize = p := by
      obtain ⟨rooted, names⟩ := p
      obtain ⟨rfl, rfl⟩ := empty
      rfl
    rw [plain]
  · by_cases back : p.normalize.rooted = false ∧ p.normalize.names = []
    · -- The path leads back to the working directory, which is not a file.
      obtain ⟨rooted, none⟩ := back
      have relative : p.rooted = false := rooted
      rw [none, List.append_nil] at there
      subst there
      rw [contentAt?, if_pos ⟨rooted, none⟩, contentAt?, if_neg empty, walked]
      cases names : p.names with
      | nil => exact absurd ⟨relative, names⟩ empty
      | cons first r =>
        rw [names, walk?] at walked
        split at walked
        case h_1 entries found => simp [found, content?]
        case h_2 => cases walked
    · rw [contentAt?, if_neg back, contentAt?, if_neg empty, walked, start_normalize]
      cases found : root.at? (p.start cwd ++ p.normalize.names) with
      | some t => rw [walk?_of_at? leads_of_mem_normalize found, there]
      | none =>
        cases ran : root.walk? (p.start cwd) p.normalize.names with
        | none => simp [there, found]
        | some other =>
          have same := (eq_of_walk? ran).trans (foldl_stepPlace_of_leads leads_of_mem_normalize _)
          rw [same, there]

end

end FileTree

/-! ## Templates -/

namespace FileLoader

/-- The path of a template as it is joined: below the directory of the templates, or, without the slashes in front,
right below the base. -/
def joined (l : FileLoader) (path : String) : Path :=
  match path.toList with
  | '/' :: r => (Path.ofString l.base).join (Path.ofString (String.ofList (r.dropWhile (· = '/'))))
  | _ => ((Path.ofString l.base).join (Path.ofString l.directory)).join (Path.ofString path)

theorem eq_normalize_of_resolve {l : FileLoader} {path : String} {file : Path} (accepted : l.resolve path = .ok file) :
    file = (l.joined path).normalize := by
  unfold resolve at accepted
  unfold joined
  split at accepted
  · cases accepted
  · next r slash =>
    rw [slash]
    exact (Except.ok.inj accepted).symm
  · next other =>
    split
    · next r slash => exact absurd slash (other r)
    · exact (Except.ok.inj accepted).symm

/-- The path of a template has no `.` and no `..`. It leads where the joined path leads if that stays inside its
start, and for others only from the root; and where the directories that the joined path passes are there, it is
a path of the same file. -/
theorem resolve_keeps_location {l : FileLoader} {path : String} {file : Path} (accepted : l.resolve path = .ok file) :
    ("." ∉ file.names ∧ ".." ∉ file.names) ∧
    (∀ cwd, file.location cwd = (l.joined path).location cwd ↔ (l.joined path).Inside ∨ cwd = []) ∧
    ∀ (root : FileTree) (cwd : List String), (l.joined path).Inside ∨ cwd = [] →
      (root.walk? ((l.joined path).start cwd) (l.joined path).names).isSome = true →
      root.contentAt? cwd file = root.contentAt? cwd (l.joined path) := by
  obtain rfl := eq_normalize_of_resolve accepted
  have led : ∀ name ∈ (l.joined path).normalize.names, Path.Leads name := Path.leads_of_mem_normalize
  refine ⟨⟨fun stays => (led _ stays).1 rfl, fun up => (led _ up).2 rfl⟩, fun cwd => Path.location_normalize_eq_iff, ?_⟩
  intro root cwd inside walked
  exact FileTree.contentAt?_normalize (Path.location_normalize_eq_iff.mpr inside) walked

/-- Templates of a sibling of the directory `pages`, which is named on the way. -/
def siblingLoader : FileLoader where
  base := "pages/../site"
  read _ := .error .noSuchFile

def siblingTree : FileTree :=
  .directory [("home", .directory [("pages", .directory []),
    ("site", .directory [("templates", .directory [("a.html", .file "A".toUTF8)])])])]

theorem sibling_keeps_location :
    siblingLoader.resolve "a.html" = .ok ⟨false, ["site", "templates", "a.html"]⟩ ∧
    (siblingLoader.joined "a.html").Inside ∧
    (∀ cwd, (⟨false, ["site", "templates", "a.html"]⟩ : Path).location cwd =
      (siblingLoader.joined "a.html").location cwd) ∧
    siblingTree.contentAt? ["home"] ⟨false, ["site", "templates", "a.html"]⟩ =
      siblingTree.contentAt? ["home"] (siblingLoader.joined "a.html") := by
  have accepted : siblingLoader.resolve "a.html" = .ok ⟨false, ["site", "templates", "a.html"]⟩ := by cbv
  have joined : siblingLoader.joined "a.html" = ⟨false, ["pages", "..", "site", "templates", "a.html"]⟩ := by cbv
  have inside : (siblingLoader.joined "a.html").Inside := by
    rw [joined, Path.inside_iff]
    exact .inr (by decide)
  have walked : (siblingTree.walk? ((siblingLoader.joined "a.html").start ["home"])
      (siblingLoader.joined "a.html").names).isSome = true := by
    rw [joined]
    decide
  obtain ⟨_, leads, reads⟩ := resolve_keeps_location accepted
  exact ⟨accepted, inside, fun cwd => (leads cwd).mpr (.inl inside), reads siblingTree ["home"] (.inl inside) walked⟩

/-- Templates of a sibling of the working directory. -/
def outerLoader : FileLoader where
  base := "../base"
  read _ := .error .noSuchFile

/-- A base that lies above the working directory is looked for in the working directory. -/
theorem outer_leads_elsewhere :
    outerLoader.resolve "a.html" = .ok ⟨false, ["base", "templates", "a.html"]⟩ ∧
    (⟨false, ["base", "templates", "a.html"]⟩ : Path).location ["home"] = ["home", "base", "templates", "a.html"] ∧
    (outerLoader.joined "a.html").location ["home"] = ["base", "templates", "a.html"] := by
  have joined : outerLoader.joined "a.html" = ⟨false, ["..", "base", "templates", "a.html"]⟩ := by cbv
  refine ⟨by cbv, by decide, ?_⟩
  rw [joined]
  decide

end FileLoader
end Mustache

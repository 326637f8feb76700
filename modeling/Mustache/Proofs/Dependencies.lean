import Mustache.Proofs.Composition
import Mustache.FileLoader

/-!
# What a compilation depends on

A compilation that succeeds has read every file that it asked for, and these files are all of the file system
that it depends on: where they read the same, it comes to the same program, and has read the same files
(`compileEntry_of_same_reads`). Which file is asked for next may depend on the texts before, so two compilers
that differ in their loaders are followed side by side, one step after another (`CompileM.Replays`).
-/

namespace Mustache
open Text

/-! ## Steps -/

namespace CompileM

variable {α β : Type} {l l' : Loader}

/-- Where the first of two things succeeds with one loader, every text that it asked for was there; and the
second does exactly the same with another loader, if that gives these texts too. -/
def Replays (l l' : Loader) (x y : CompileM α) : Prop :=
  ∀ s a t, x s = .ok a t → ∃ asked, t.requests = s.requests ++ asked ∧ (∀ path ∈ asked, ∃ text, l path = .ok text) ∧
    ((∀ path ∈ asked, l' path = l path) → y s = .ok a t)

/-- What asks for nothing replays itself. -/
theorem replays_silent {x : CompileM α} (silent : ∀ s a t, x s = .ok a t → t.requests = s.requests) :
    Replays l l' x x := by
  intro s a t run
  refine ⟨[], ?_, List.forall_mem_nil _, fun _ => run⟩
  rw [silent s a t run, List.append_nil]

theorem replays_pure (a : α) : Replays l l' (pure a) (pure a) := by
  apply replays_silent
  intro s b t run
  obtain ⟨-, rfl⟩ := pure_ok_iff.mp run
  rfl

theorem replays_fail (fault : Fault) : Replays l l' (fail fault : CompileM α) (fail fault) := by
  intro s a t run
  cases run

theorem replays_report (event : Event) : Replays l l' (report event) (report event) := by
  apply replays_silent
  intro s a t run
  cases run
  rfl

theorem Replays.bind {x y : CompileM α} {f g : α → CompileM β} (first : Replays l l' x y)
    (second : ∀ a, Replays l l' (f a) (g a)) : Replays l l' (x >>= f) (y >>= g) := by
  intro s b t run
  obtain ⟨a, u, one, other⟩ := bind_ok_iff.mp run
  obtain ⟨asked, more, given, again⟩ := first s a u one
  obtain ⟨later, further, laterGiven, laterAgain⟩ := second a u b t other
  refine ⟨asked ++ later, ?_, List.forall_mem_append.mpr ⟨given, laterGiven⟩, ?_⟩
  · rw [further, more, List.append_assoc]
  · intro agree
    obtain ⟨before, behind⟩ := List.forall_mem_append.mp agree
    exact bind_ok_iff.mpr ⟨a, u, again before, laterAgain behind⟩

theorem Replays.inFrame {x y : CompileM α} (inner : Replays l l' x y) (frame : Frame) :
    Replays l l' (inFrame frame x) (inFrame frame y) := by
  intro s a t run
  obtain ⟨u, ran, rfl⟩ := inFrame_ok_iff.mp run
  obtain ⟨asked, more, given, again⟩ := inner _ a u ran
  exact ⟨asked, more, given, fun agree => inFrame_ok_iff.mpr ⟨u, again agree, rfl⟩⟩

theorem Replays.inTemplate {x y : CompileM α} (inner : Replays l l' x y) (name : String) (site : Option Position) :
    Replays l l' (inTemplate name site x) (inTemplate name site y) := by
  intro s a t run
  obtain ⟨fresh, u, ran, rfl⟩ := inTemplate_ok_iff.mp run
  obtain ⟨asked, more, given, again⟩ := inner _ a u ran
  exact ⟨asked, more, given, fun agree => inTemplate_ok_iff.mpr ⟨fresh, u, again agree, rfl⟩⟩

end CompileM

/-! ## The compiler -/

namespace Compiler
open CompileM

/-- The only step that asks for a text. -/
theorem replayed_request (c : Compiler) (l : Loader) (path : String) :
    Replays c.loader l (c.request path) ((c.withLoader l).request path) := by
  intro s text t run
  unfold request at run
  cases loaded : c.loader path with
  | error cause => simp [loaded] at run
  | ok given =>
    obtain ⟨rfl, rfl⟩ : given = text ∧ { s with requests := s.requests ++ [path] } = t := by simpa [loaded] using run
    refine ⟨[path], rfl, ?_, ?_⟩
    · simp [loaded]
    · intro agree
      have same : l path = .ok given := (agree path (by simp)).trans loaded
      simp [request, withLoader, same]

/-- What is put together of things that are replayed is replayed. -/
theorem replays_compositional (c : Compiler) (l : Loader) :
    c.Compositional l fun _ _ x y => Replays c.loader l x y where
  value := replays_pure
  fault _ := replays_fail _
  event := replays_report
  state := by
    intro n
    apply replays_silent
    intro s a t run
    cases run
    rfl
  request := replayed_request c l
  andThen := .bind
  frame := .inFrame
  template := .inTemplate
  more holds := holds

/-- A compilation that succeeds was given all that it asked for, and with a loader that gives the same for it
everything goes the same way. -/
theorem replayed_compileEntry (c : Compiler) (l : Loader) {entry : Entry} {p : Program} {s : CompileState}
    (run : c.compileEntry entry = .ok p s) :
    (∀ path ∈ s.requests, ∃ text, c.loader path = .ok text) ∧
      ((∀ path ∈ s.requests, l path = c.loader path) → (c.withLoader l).compileEntry entry = .ok p s) := by
  have kept := replays_compositional c l
  have whole : ∃ x y, Replays c.loader l x y ∧ c.compileEntry entry = x c.start ∧
      (c.withLoader l).compileEntry entry = y c.start := by
    cases entry with
    | source text name => exact ⟨_, _, kept.compileSource text name, rfl, rfl⟩
    | path path =>
      have loaded : Replays c.loader l (c.loadPath path {}) ((c.withLoader l).loadPath path {}) :=
        kept.loadPath (n := 0) path {}
      exact ⟨_, _, loaded.bind fun source => kept.compileSource source path, rfl, rfl⟩
  obtain ⟨x, y, replays, first, second⟩ := whole
  rw [first] at run
  obtain ⟨asked, more, given, again⟩ := replays c.start p s run
  obtain rfl : s.requests = asked := by simpa [start] using more
  rw [second]
  exact ⟨given, again⟩

end Compiler

/-! ## Files -/

namespace FileLoader

variable {l : FileLoader} {path text : String}

/-- What is given for a path is what the file reads that it leads to. -/
theorem load_eq_ok : l.load path = .ok text ↔ ∃ file, l.resolve path = .ok file ∧ l.read file = .ok text := by
  unfold load
  cases l.resolve path <;> simp [bind, Except.bind]

/-- The same directories in another file system. -/
def withFiles (l : FileLoader) (read : Path → Except SystemError String) : FileLoader := { l with read }

theorem readFor?_of_load (given : l.load path = .ok text) :
    ∃ file, l.resolve path = .ok file ∧ l.readFor? path = some file := by
  obtain ⟨file, resolved, _⟩ := load_eq_ok.mp given
  exact ⟨file, resolved, by simp [readFor?, resolved, given]⟩

variable {requests : List String} {read : Path → Except SystemError String}

/-- File systems in which the files that were read are the same give the same texts. -/
theorem load_withFiles (given : ∀ path ∈ requests, ∃ text, l.load path = .ok text)
    (same : ∀ file ∈ l.reads requests, read file = l.read file) :
    ∀ path ∈ requests, (l.withFiles read).load path = l.load path := by
  intro path asked
  obtain ⟨text, loaded⟩ := given path asked
  obtain ⟨file, resolved, recorded⟩ := readFor?_of_load loaded
  have listed : file ∈ l.reads requests := List.mem_filterMap.mpr ⟨path, asked, recorded⟩
  have resolved' : (l.withFiles read).resolve path = .ok file := resolved
  simp only [load, resolved, resolved', bind, Except.bind]
  exact same file listed

theorem reads_withFiles (same : ∀ path ∈ requests, (l.withFiles read).load path = l.load path) :
    (l.withFiles read).reads requests = l.reads requests := by
  apply List.filterMap_congr
  intro path asked
  have resolved : (l.withFiles read).resolve path = l.resolve path := rfl
  rw [readFor?, readFor?, same path asked, resolved]

end FileLoader

namespace Compiler

/-- The compiler that loads templates from files. -/
def onFiles (c : Compiler) (l : FileLoader) : Compiler := c.withLoader l.load

/-- A compilation depends on no other file than those that it has read: in a file system in which they are the
same it comes to the same program, and has read the same files in the same order. -/
theorem compileEntry_of_same_reads (c : Compiler) (l : FileLoader) (read : Path → Except SystemError String)
    {entry : Entry} {p : Program} {s : CompileState} (run : (c.onFiles l).compileEntry entry = .ok p s)
    (same : ∀ file ∈ l.reads s.requests, read file = l.read file) :
    ∃ t, (c.onFiles (l.withFiles read)).compileEntry entry = .ok p t ∧
      (l.withFiles read).reads t.requests = l.reads s.requests := by
  obtain ⟨given, again⟩ := replayed_compileEntry (c.onFiles l) (l.withFiles read).load run
  have loads := FileLoader.load_withFiles given same
  exact ⟨s, again loads, FileLoader.reads_withFiles loads⟩

/-- A page that takes its title from a file, and never reads the file of its footer. -/
def pageFiles (title footer : String) : Path → Except SystemError String := fun file =>
  if file.names = ["site", "templates", "page"] then .ok (tagText ">title" ++ tagText "name")
  else if file.names = ["site", "templates", "title"] then .ok title
  else if file.names = ["site", "templates", "footer"] then .ok footer
  else .error .noSuchFile

def pageLoader : FileLoader := { base := "site", read := pageFiles "Mr " "bye" }

def pageReads : List Path := [⟨false, ["site", "templates", "page"]⟩, ⟨false, ["site", "templates", "title"]⟩]

def pageProgram : Program := ⟨"page", [.text "Mr ", .interpolation (.search 0 ["name"]) true]⟩

def pageCompiler : Compiler := { loader := .ofDictionary [] }

/-- Another footer. -/
def otherFiles : Path → Except SystemError String := pageFiles "Mr " "ciao"

/-- A program with the files that were read for it. -/
def withReads (l : FileLoader) : EStateM.Result CompileError CompileState Program → Option (Program × List Path)
  | .ok p s => some (p, l.reads s.requests)
  | .error _ _ => none

theorem page_compiles :
    ∃ s, (pageCompiler.onFiles pageLoader).compileEntry (.path "page") = .ok pageProgram s ∧
      pageLoader.reads s.requests = pageReads := by
  have done : withReads pageLoader ((pageCompiler.onFiles pageLoader).compileEntry (.path "page")) =
      some (pageProgram, pageReads) := by cbv
  cases run : (pageCompiler.onFiles pageLoader).compileEntry (.path "page") with
  | ok p s =>
    obtain ⟨rfl, reads⟩ : p = pageProgram ∧ pageLoader.reads s.requests = pageReads := by
      simpa [run, withReads] using done
    exact ⟨s, rfl, reads⟩
  | error e s => simp [run, withReads] at done

theorem page_compiles_again :
    ∃ s, (pageCompiler.onFiles pageLoader).compileEntry (.path "page") = .ok pageProgram s ∧
      (∀ file ∈ pageLoader.reads s.requests, otherFiles file = pageLoader.read file) ∧
      ∃ t, (pageCompiler.onFiles (pageLoader.withFiles otherFiles)).compileEntry (.path "page") = .ok pageProgram t ∧
        (pageLoader.withFiles otherFiles).reads t.requests = pageReads := by
  obtain ⟨s, run, reads⟩ := page_compiles
  have same : ∀ file ∈ pageLoader.reads s.requests, otherFiles file = pageLoader.read file := by
    rw [reads]
    decide
  obtain ⟨t, again, reads'⟩ := compileEntry_of_same_reads pageCompiler pageLoader otherFiles run same
  exact ⟨s, run, same, t, again, reads'.trans reads⟩

end Compiler
end Mustache

import Mathlib
import Mustache.Statement.Reader

/-!
# Reading line by line

The statements of a source are those of its lines, unless there is a fault in the source (`ofSource_eq_ok`), and
then it is one of a source, which has a place there (`ofSource_of_error`). Lines are read one after another, as are
the tokens of a line, and each step may fail: what such a fold keeps, goes through and comes to is said here for any
steps.
-/

namespace Mustache

/-! ## Steps that may fail -/

section

variable {α β ε φ σ τ : Type}

theorem bind_eq_ok {x : Except ε α} {f : α → Except ε β} {b : β} : x >>= f = .ok b ↔ ∃ a, x = .ok a ∧ f a = .ok b := by
  cases x <;> simp [bind, Except.bind]

theorem bind_eq_error {x : Except ε α} {f : α → Except ε β} {e : ε} :
    x >>= f = .error e ↔ x = .error e ∨ ∃ a, x = .ok a ∧ f a = .error e := by
  cases x <;> simp [bind, Except.bind]

theorem foldlM_nil_eq_ok {step : σ → α → Except ε σ} {s t : σ} : [].foldlM step s = .ok t ↔ s = t := by
  simp [pure, Except.pure]

theorem foldlM_cons_eq_ok {step : σ → α → Except ε σ} {a : α} {rest : List α} {s t : σ} :
    (a :: rest).foldlM step s = .ok t ↔ ∃ u, step s a = .ok u ∧ rest.foldlM step u = .ok t := by
  rw [List.foldlM_cons, bind_eq_ok]

/-- What holds of a state and is kept by every step for one of the items holds after all of them. -/
theorem foldlM_invariant_of_mem {step : σ → α → Except ε σ} {P : σ → Prop} {items : List α}
    (keeps : ∀ s, ∀ a ∈ items, ∀ t, P s → step s a = .ok t → P t) {s t : σ} (first : P s)
    (folded : items.foldlM step s = .ok t) : P t := by
  induction items generalizing s with
  | nil =>
    obtain rfl := foldlM_nil_eq_ok.mp folded
    exact first
  | cons a rest ih =>
    obtain ⟨u, one, later⟩ := foldlM_cons_eq_ok.mp folded
    have kept := keeps s a List.mem_cons_self u first one
    exact ih (fun s b member => keeps s b (List.mem_cons_of_mem a member)) kept later

/-- What holds of a state and is kept by every step holds after all of them. -/
theorem foldlM_invariant {step : σ → α → Except ε σ} {P : σ → Prop} (keeps : ∀ s a t, P s → step s a = .ok t → P t)
    {items : List α} {s t : σ} (first : P s) (folded : items.foldlM step s = .ok t) : P t :=
  foldlM_invariant_of_mem (fun s a _ => keeps s a) first folded

/-- Where all steps succeed, each of them does. -/
theorem exists_of_foldlM {step : σ → α → Except ε σ} {items : List α} {s t : σ} (folded : items.foldlM step s = .ok t) :
    ∀ a ∈ items, ∃ u v, step u a = .ok v := by
  induction items generalizing s with
  | nil => exact List.forall_mem_nil _
  | cons a rest ih =>
    obtain ⟨u, one, later⟩ := foldlM_cons_eq_ok.mp folded
    exact List.forall_mem_cons.mpr ⟨⟨s, u, one⟩, ih later⟩

/-- Where the steps fail, one of them does. -/
theorem exists_of_foldlM_error {step : σ → α → Except ε σ} {items : List α} {s : σ} {e : ε}
    (failed : items.foldlM step s = .error e) : ∃ a ∈ items, ∃ u, step u a = .error e := by
  induction items generalizing s with
  | nil => cases failed
  | cons a rest ih =>
    rw [List.foldlM_cons] at failed
    rcases bind_eq_error.mp failed with here | ⟨u, _, later⟩
    · exact ⟨a, List.mem_cons_self, s, here⟩
    · obtain ⟨b, member, v, there⟩ := ih later
      exact ⟨b, List.mem_cons_of_mem a member, v, there⟩

/-- A result with its value and its fault changed. -/
def recast (value : α → β) (fault : ε → φ) : Except ε α → Except φ β
  | .ok a => .ok (value a)
  | .error e => .error (fault e)

/-- Steps that take changed items to changed states do so all together. -/
theorem recast_foldlM {state : σ → τ} {fault : ε → φ} {item : α → β} {step : σ → α → Except ε σ}
    {step' : τ → β → Except φ τ} {items : List α}
    (one : ∀ a ∈ items, ∀ s, recast state fault (step s a) = step' (state s) (item a)) (s : σ) :
    recast state fault (items.foldlM step s) = (items.map item).foldlM step' (state s) := by
  induction items generalizing s with
  | nil => rfl
  | cons a rest ih =>
    obtain ⟨first, others⟩ := List.forall_mem_cons.mp one
    rw [List.map_cons, List.foldlM_cons, List.foldlM_cons, ← first]
    cases step s a with
    | error e => rfl
    | ok next => exact ih others next

/-- What every step does to a part of the state, all of them do. -/
theorem map_foldlM {f : σ → τ} {step : σ → α → Except ε σ} {step' : τ → α → Except ε τ} {items : List α}
    (one : ∀ a ∈ items, ∀ s, (step s a).map f = step' (f s) a) (s : σ) :
    (items.foldlM step s).map f = items.foldlM step' (f s) := by
  have same {x : Except ε σ} : recast f id x = x.map f := by cases x <;> rfl
  have one' : ∀ a ∈ items, ∀ s, recast f id (step s a) = step' (f s) (id a) :=
    fun a member s => same.trans (one a member s)
  rw [← same, recast_foldlM one', List.map_id]

theorem foldlM_flatMap (f : α → List β) (step : σ → β → Except ε σ) (items : List α) (s : σ) :
    (items.flatMap f).foldlM step s = items.foldlM (fun s a => (f a).foldlM step s) s := by
  induction items generalizing s with
  | nil => rfl
  | cons a rest ih =>
    rw [List.flatMap_cons, List.foldlM_append, List.foldlM_cons]
    congr 1
    funext next
    exact ih next

end

/-! ## Lines -/

/-- The statements that some lines yield. -/
def readLines (indent : String) (lines : List Line) : Except Fault (List Statement) := do
  (← lines.foldlM (Outline.readLine indent) {}).finish

variable {source indent : String} {lines : List Line} {stmts : List Statement}

theorem Outline.finish_eq_ok {o : Outline} : o.finish = .ok stmts ↔ o.opened = [] ∧ o.stmts.reverse = stmts := by
  unfold finish
  cases o.opened <;> simp

theorem readLines_eq_ok : readLines indent lines = .ok stmts ↔
    ∃ o, lines.foldlM (Outline.readLine indent) {} = .ok o ∧ o.opened = [] ∧ o.stmts.reverse = stmts := by
  rw [readLines, bind_eq_ok]
  simp only [Outline.finish_eq_ok]

/-- The statements of a source without a fault are those of its lines. -/
theorem ofSource_eq_readLines (clean : (layout source).failure = none) (indent : String) :
    Statement.ofSource source indent = readLines indent (layout source).lines := by
  simp only [Statement.ofSource, readLines, clean]

theorem ofSource_eq_ok : Statement.ofSource source indent = .ok stmts ↔
    (layout source).failure = none ∧ readLines indent (layout source).lines = .ok stmts := by
  cases failed : (layout source).failure with
  | none => simp [ofSource_eq_readLines failed]
  | some cause =>
    have refused : Statement.ofSource source indent ≠ .ok stmts := by
      intro parsed
      obtain ⟨o, _, settled⟩ := bind_eq_ok.mp parsed
      simp [failed] at settled
    simp [refused]

/-- The lines of a source without a fault hold all of its tokens. -/
theorem tokens_of_lines (clean : (layout source).failure = none) :
    (layout source).lines.flatMap (·.tokens) = (tokenize source).tokens := by
  have whole := groupLines_flatten (tokenize source).tokens
  have no_fault : (tokenize source).failure = none := clean
  by_cases finished : (groupLines (tokenize source).tokens).2 = []
  · rw [finished, List.append_nil] at whole
    simpa [layout, finished] using whole
  · simpa [layout, no_fault, finished] using whole

/-! ## Faults of sources -/

/-- The faults that a source can have by itself. -/
def Fault.OfSource : Fault → Prop
  | .unreadable _ | .sectionMismatch .. | .invalidReference .. => True
  | _ => False

theorem Fault.OfSource.position {fault : Fault} (ofSource : fault.OfSource) : ∃ p, fault.position? = some p := by
  cases fault <;> first | exact ⟨_, rfl⟩ | cases ofSource

variable {name : String} {position : Position} {o : Outline} {fault : Fault}

theorem ofSource_of_withReference (refused : Outline.withReference name position o = .error fault) : fault.OfSource := by
  unfold Outline.withReference at refused
  split at refused <;> cases refused
  trivial

theorem ofSource_of_leave (refused : o.leave name position = .error fault) : fault.OfSource := by
  unfold Outline.leave at refused
  split at refused
  · cases refused
    trivial
  · split at refused <;> cases refused
    trivial

theorem ofSource_of_readToken {line : Line} {t : LocatedToken} (refused : o.readToken indent line t = .error fault) :
    fault.OfSource := by
  unfold Outline.readToken at refused
  cases token : t.token with
  | text | newline | delimiters => simp [token] at refused
  | tag name kind =>
    simp only [token] at refused
    cases kind with
    | interpolation | unescaped | sectionStart | invertedStart => exact ofSource_of_withReference refused
    | scopeEnd => exact ofSource_of_leave refused
    | comment | inclusion | parentStart | blockStart => cases refused

theorem ofSource_of_finish (refused : o.finish = .error fault) : fault.OfSource := by
  unfold Outline.finish at refused
  split at refused <;> cases refused
  trivial

/-- A source is refused for what is in it. -/
theorem ofSource_of_error (refused : Statement.ofSource source indent = .error fault) : fault.OfSource := by
  rcases bind_eq_error.mp refused with early | ⟨o, _, late⟩
  · obtain ⟨line, _, u, inLine⟩ := exists_of_foldlM_error early
    obtain ⟨t, _, v, inToken⟩ := exists_of_foldlM_error inLine
    exact ofSource_of_readToken inToken
  · split at late
    · cases late
      trivial
    · exact ofSource_of_finish late

end Mustache

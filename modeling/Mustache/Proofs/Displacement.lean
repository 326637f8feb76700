import Mustache.Proofs.Failures
import Mustache.Proofs.Printing

/-!
# Errors elsewhere

How a source is faulty depends on where its tags stand no more than what it means does. What is read of a text is
the same from any position on (`Cursor.run_unplaced`), and statements that differ in positions only fail alike
(`Fails.placed`). Two sources that are read alike up to positions thus compile to one program, or fail with errors
that differ in a position at most (`Compiler.compile_displaced`).
-/

namespace Mustache
open Text

/-! ## Tokens -/

namespace Lexeme

variable {d : Delimiters} {p : Position}

theorem checkName_unplaced (p : Position) (kind : TagKind) (name : List Char) :
    (checkName p kind name).mapError SyntaxError.unplaced = checkName {} kind name := by
  unfold checkName
  split
  · rfl
  · split
    · rfl
    · split <;> rfl

theorem delimiterTag_unplaced (d : Delimiters) (p : Position) (lead inner : List Char) :
    (delimiterTag d p lead inner).mapError SyntaxError.unplaced = delimiterTag d {} lead inner := by
  unfold delimiterTag
  split
  · rfl
  · split <;> rfl

theorem tripleTag_unplaced (d : Delimiters) (p : Position) (body lead inner : List Char) :
    (tripleTag d p body lead inner).mapError SyntaxError.unplaced = tripleTag d {} body lead inner := by
  unfold tripleTag
  split
  · split <;> rfl
  · next name rest _ =>
    rw [← checkName_unplaced p]
    cases checkName p .unescaped (trim name) <;> rfl

theorem plainTag_unplaced (d : Delimiters) (p : Position) (body : List Char) :
    (plainTag d p body).mapError SyntaxError.unplaced = plainTag d {} body := by
  unfold plainTag
  split
  · rfl
  · dsimp only
    rw [← checkName_unplaced p]
    cases checkName p _ _ <;> rfl

theorem tag_unplaced (d : Delimiters) (p : Position) (body : List Char) :
    (tag d p body).mapError SyntaxError.unplaced = tag d {} body := by
  unfold tag
  dsimp only
  split
  · exact delimiterTag_unplaced ..
  · exact tripleTag_unplaced ..
  · exact plainTag_unplaced ..

end Lexeme

/-- The position of a place bears on nothing but the position of a fault. -/
theorem lexeme_unplaced (d : Delimiters) (p : Position) (cs : List Char) :
    (lexeme d p cs).mapError SyntaxError.unplaced = lexeme d {} cs := by
  unfold lexeme
  split
  · rfl
  · split
    · exact Lexeme.tag_unplaced ..
    · rfl

theorem lexeme_cases (d : Delimiters) (p q : Position) (cs : List Char) :
    (∃ l, lexeme d p cs = .ok l ∧ lexeme d q cs = .ok l) ∨
      ∃ e e', lexeme d p cs = .error e ∧ lexeme d q cs = .error e' ∧ e'.unplaced = e.unplaced := by
  have same := (lexeme_unplaced d q cs).trans (lexeme_unplaced d p cs).symm
  cases here : lexeme d p cs <;> cases there : lexeme d q cs <;> simp_all [Except.mapError]

/-- From two places with the same text and the same delimiters the same is read, up to positions. -/
theorem Cursor.run_unplaced {c c' : Cursor} (rest : c'.rest = c.rest) (active : c'.delimiters = c.delimiters) :
    c'.run.tokens.map (·.content) = c.run.tokens.map (·.content) ∧
      c'.run.failure.map SyntaxError.unplaced = c.run.failure.map SyntaxError.unplaced := by
  induction c using Cursor.run.induct generalizing c' with
  | case1 c done =>
    rw [run_of_nil done, run_of_nil (rest.trans done)]
    exact ⟨rfl, rfl⟩
  | case2 c left e read =>
    rcases lexeme_cases c.delimiters c.position c'.position c.rest with ⟨l, here, _⟩ | ⟨f, e', here, there, same⟩
    · cases read.symm.trans here
    · obtain rfl := Except.error.inj (read.symm.trans here)
      rw [run_of_error left read, run_of_error (by rwa [rest]) (by rwa [active, rest])]
      exact ⟨rfl, congrArg some same⟩
  | case3 c left l read ih =>
    rcases lexeme_cases c.delimiters c.position c'.position c.rest with ⟨l', here, there⟩ | ⟨e, _, here, _⟩
    · obtain rfl := Except.ok.inj (read.symm.trans here)
      have behind : (c'.after l).rest = (c.after l).rest := rfl
      have next : (c'.after l).delimiters = (c.after l).delimiters := by
        unfold Cursor.after
        dsimp only
        split <;> first | rfl | exact active
      obtain ⟨tokens, failure⟩ := ih behind next
      rw [run_of_ok left read, run_of_ok (by rwa [rest]) (by rwa [active, rest])]
      refine ⟨?_, failure⟩
      rw [List.map_cons, List.map_cons, tokens]
      rfl
    · cases read.symm.trans here

/-! ## Statements -/

namespace Compiler

section

variable {c : Compiler} {scope : Scope} {overrides overrides' inner : Overrides} {stmt stmt' : Statement}
  {body : List Statement} {name indent path : String} {position : Position} {frame : Frame} {fault : Fault}

theorem Asks.placed (asks : c.Asks stmt name position) (same : stmt'.unplaced = stmt.unplaced) :
    ∃ position', c.Asks stmt' name position' := by
  cases asks with
  | interpolation =>
    cases stmt' <;> simp only [Statement.unplaced, reduceCtorEq, Statement.interpolation.injEq] at same
    obtain ⟨rfl, rfl, _⟩ := same
    exact ⟨_, .interpolation⟩
  | sect plain =>
    cases stmt' <;> simp only [Statement.unplaced, reduceCtorEq, Statement.sect.injEq] at same
    obtain ⟨rfl, rfl, _⟩ := same
    exact ⟨_, .sect plain⟩

theorem Opens.placed (opens : c.Opens scope overrides stmt position frame inner body)
    (same : stmt'.unplaced = stmt.unplaced) (replaced : overrides'.unplaced = overrides.unplaced) :
    ∃ position' inner' body', c.Opens scope overrides' stmt' position' frame inner' body' ∧
      inner'.unplaced = inner.unplaced ∧ Statement.unplacedAll body' = Statement.unplacedAll body := by
  cases opens with
  | lambda calls =>
    cases stmt' <;> simp only [Statement.unplaced, reduceCtorEq, Statement.sect.injEq] at same
    obtain ⟨rfl, rfl, body, _⟩ := same
    exact ⟨_, _, _, .lambda calls, replaced, body⟩
  | sect plain refers =>
    cases stmt' <;> simp only [Statement.unplaced, reduceCtorEq, Statement.sect.injEq] at same
    obtain ⟨rfl, rfl, body, _⟩ := same
    exact ⟨_, _, _, .sect plain refers, replaced, body⟩
  | replaced found =>
    cases stmt' <;> simp only [Statement.unplaced, reduceCtorEq, Statement.block.injEq] at same
    obtain ⟨rfl, _, _⟩ := same
    have there := (Overrides.find?_of_unplaced replaced _).trans (congrArg (Option.map Statement.unplacedAll) found)
    obtain ⟨body, found', same_body⟩ := Option.map_eq_some_iff.mp there
    refine ⟨_, _, _, .replaced found', ?_, same_body⟩
    rw [Overrides.unplaced_erase, Overrides.unplaced_erase, replaced]
  | block own =>
    cases stmt' <;> simp only [Statement.unplaced, reduceCtorEq, Statement.block.injEq] at same
    obtain ⟨rfl, body, _⟩ := same
    have there := (Overrides.find?_of_unplaced replaced _).trans (congrArg (Option.map Statement.unplacedAll) own)
    exact ⟨_, _, _, .block (Option.map_eq_none_iff.mp there), replaced, body⟩

theorem Includes.placed (includes : Includes overrides stmt name indent position inner)
    (same : stmt'.unplaced = stmt.unplaced) (replaced : overrides'.unplaced = overrides.unplaced) :
    ∃ position' inner', Includes overrides' stmt' name indent position' inner' ∧ inner'.unplaced = inner.unplaced := by
  cases includes with
  | inclusion =>
    cases stmt' <;> simp only [Statement.unplaced, reduceCtorEq, Statement.inclusion.injEq] at same
    obtain ⟨rfl, rfl, _⟩ := same
    exact ⟨_, _, .inclusion, rfl⟩
  | parent =>
    cases stmt' <;> simp only [Statement.unplaced, reduceCtorEq, Statement.parent.injEq] at same
    obtain ⟨rfl, body, _⟩ := same
    refine ⟨_, _, .parent, ?_⟩
    rw [Overrides.unplaced_insertAll, Overrides.unplaced_insertAll, replaced, Overrides.unplaced_directBlocks,
      Overrides.unplaced_directBlocks, body]

/-- What a path is refused for depends on where that happens by a position at most. -/
theorem pathFault?_placed (refused : c.pathFault? path position = some fault) (position' : Position) :
    ∃ fault', c.pathFault? path position' = some fault' ∧ fault'.unplaced = fault.unplaced := by
  revert refused
  unfold pathFault?
  obtain ⟨file, fragment?⟩ := splitFragment path
  by_cases invalid : file = "" ∨ fragment? = some ""
  · simp only [invalid, if_true]
    intro refused
    cases refused
    exact ⟨_, rfl, rfl⟩
  · simp only [invalid, if_false]
    exact fun refused => ⟨fault, refused, rfl⟩

theorem sourceFault?_placed (refused : c.sourceFault? name position = some fault) (position' : Position) :
    ∃ fault', c.sourceFault? name position' = some fault' ∧ fault'.unplaced = fault.unplaced := by
  revert refused
  unfold sourceFault?
  rcases Dictionary.find? name c.partials with - | (text | path)
  · exact fun refused => pathFault?_placed refused position'
  · intro refused
    cases refused
  · exact fun refused => pathFault?_placed refused position'

end

end Compiler

/-- An error without its position. -/
def CompileError.unplaced (e : CompileError) : CompileError := { e with fault := e.fault.unplaced }

/-- Statements that differ in positions only fail with errors that differ in a position at most. -/
theorem Fails.placed {c : Compiler} {levels : Nat} {scope : Scope} {chain : List String}
    {overrides overrides' : Overrides} {stmts stmts' : List Statement} {e : CompileError}
    (fails : Fails c levels scope chain overrides stmts e) (replaced : overrides'.unplaced = overrides.unplaced)
    (same : Statement.unplacedAll stmts' = Statement.unplacedAll stmts) :
    ∃ e', Fails c levels scope chain overrides' stmts' e' ∧ e'.unplaced = e.unplaced := by
  induction fails generalizing overrides' stmts' with
  | @later _ _ _ _ stmt _ _ _ _ first _ behind =>
    obtain ⟨stmt', rest', rfl, one, others⟩ := Statement.unplacedAll_eq_cons same
    obtain ⟨e', fails, alike⟩ := behind replaced others
    have alone : Statement.unplacedAll [stmt'] = Statement.unplacedAll [stmt] := by
      rw [Statement.unplacedAll, one]
      rfl
    exact ⟨e', .later (first.placed replaced alone) fails, alike⟩
  | unresolved asks unknown =>
    obtain ⟨stmt', rest', rfl, one, others⟩ := Statement.unplacedAll_eq_cons same
    obtain ⟨position', asks⟩ := asks.placed one
    exact ⟨_, .unresolved asks unknown, rfl⟩
  | tooDeep opens =>
    obtain ⟨stmt', rest', rfl, one, others⟩ := Statement.unplacedAll_eq_cons same
    obtain ⟨position', inner', body', opens, _, _⟩ := opens.placed one replaced
    exact ⟨_, .tooDeep opens, rfl⟩
  | inside opens _ within =>
    obtain ⟨stmt', rest', rfl, one, others⟩ := Statement.unplacedAll_eq_cons same
    obtain ⟨position', inner', body', opens, inner, body⟩ := opens.placed one replaced
    obtain ⟨e', fails, alike⟩ := within inner body
    exact ⟨e', .inside opens fails, alike⟩
  | circular includes again =>
    obtain ⟨stmt', rest', rfl, one, others⟩ := Statement.unplacedAll_eq_cons same
    obtain ⟨position', inner', includes, _⟩ := includes.placed one replaced
    exact ⟨_, .circular includes again, rfl⟩
  | includedTooDeep includes fresh =>
    obtain ⟨stmt', rest', rfl, one, others⟩ := Statement.unplacedAll_eq_cons same
    obtain ⟨position', inner', includes, _⟩ := includes.placed one replaced
    exact ⟨_, .includedTooDeep includes fresh, rfl⟩
  | unloaded includes fresh refused =>
    obtain ⟨stmt', rest', rfl, one, others⟩ := Statement.unplacedAll_eq_cons same
    obtain ⟨position', inner', includes, _⟩ := includes.placed one replaced
    obtain ⟨fault', refused, alike⟩ := Compiler.sourceFault?_placed refused position'
    exact ⟨_, .unloaded includes fresh refused, by rw [CompileError.unplaced, CompileError.unplaced, alike]⟩
  | unreadable includes fresh loaded faulty =>
    obtain ⟨stmt', rest', rfl, one, others⟩ := Statement.unplacedAll_eq_cons same
    obtain ⟨position', inner', includes, _⟩ := includes.placed one replaced
    exact ⟨_, .unreadable includes fresh loaded faulty, rfl⟩
  | included includes fresh loaded parsed _ within =>
    obtain ⟨stmt', rest', rfl, one, others⟩ := Statement.unplacedAll_eq_cons same
    obtain ⟨position', inner', includes, inner⟩ := includes.placed one replaced
    obtain ⟨e', fails, alike⟩ := within inner rfl
    exact ⟨e', .included includes fresh loaded parsed fails, alike⟩

/-! ## Compilations -/

namespace Compiler

/-- What a compilation comes to, up to positions: the program, or the error. -/
def outcome : EStateM.Result CompileError CompileState Program → Except CompileError Program
  | .ok p _ => .ok p
  | .error e _ => .error e.unplaced

/-- Sources that are read alike up to positions compile to the same program, or with the same error up to its
position. -/
theorem compile_displaced {source other : String}
    (same : unplacedResult Statement.unplacedAll (Statement.ofSource other "") =
      unplacedResult Statement.unplacedAll (Statement.ofSource source "")) (c : Compiler) (name : String) :
    outcome (c.compile other name) = outcome (c.compile source name) := by
  cases run : c.compile source name with
  | ok p s =>
    obtain ⟨t, again⟩ := compile_of_unplaced run fun stmts => ok_of_unplacedResult same
    rw [again]
    rfl
  | error e s =>
    suffices ∃ e', c.FailsAt (.source other name) e' ∧ e'.unplaced = e.unplaced by
      obtain ⟨e', fails, alike⟩ := this
      obtain ⟨t, again⟩ := failsAt_iff.mp fails
      have again : c.compile other name = .error e' t := again
      rw [again]
      exact congrArg Except.error alike
    have fails : c.FailsAt (.source source name) e := failsAt_iff.mpr ⟨s, run⟩
    cases fails with
    | unreadable found faulty =>
      cases found
      rw [faulty] at same
      cases faulty' : Statement.ofSource other "" with
      | ok stmts => simp [faulty', unplacedResult] at same
      | error fault =>
        refine ⟨_, .unreadable rfl faulty', ?_⟩
        have alike := Except.error.inj (faulty' ▸ same)
        rw [CompileError.unplaced, CompileError.unplaced, alike]
        rfl
    | within found parsed fails =>
      cases found
      obtain ⟨stmts', parsed', alike⟩ := ok_of_unplacedResult same parsed
      obtain ⟨e', fails, unplaced⟩ := fails.placed rfl alike
      exact ⟨e', .within rfl parsed' fails, unplaced⟩

end Compiler
end Mustache

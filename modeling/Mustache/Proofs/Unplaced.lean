import Mustache.Proofs.Changes

/-!
# Statements without positions

What lines say does not depend on where they stand: reading them and leaving out the positions of the
statements is the same as reading them without positions (`readLines_unplaced`).
-/

namespace Mustache
open Text

/-! ## Leaving out positions -/

mutual
def Statement.unplaced : Statement → Statement
  | .text content => .text content
  | .interpolation name escape _ => .interpolation name escape {}
  | .sect name inverted body _ => .sect name inverted (Statement.unplacedAll body) {}
  | .inclusion name indent _ => .inclusion name indent {}
  | .parent name body _ => .parent name (Statement.unplacedAll body) {}
  | .block name body _ => .block name (Statement.unplacedAll body) {}

def Statement.unplacedAll : List Statement → List Statement
  | [] => []
  | s :: r => s.unplaced :: Statement.unplacedAll r
end

def SyntaxError.unplaced : SyntaxError → SyntaxError
  | .unclosedTag _ expected => .unclosedTag {} expected
  | .emptyName _ kind => .emptyName {} kind
  | .invalidName _ name => .invalidName {} name
  | .invalidDelimiters _ found => .invalidDelimiters {} found
  | .unbalancedTriple _ => .unbalancedTriple {}
  | .nestedFragment _ name => .nestedFragment {} name

def Fault.unplaced : Fault → Fault
  | .unreadable cause => .unreadable cause.unplaced
  | .unresolvedReference name _ => .unresolvedReference name {}
  | .sectionMismatch expected found _ => .sectionMismatch expected found {}
  | .invalidReference name _ => .invalidReference name {}
  | .tooDeep maxDepth _ => .tooDeep maxDepth {}
  | fault => fault

def OpenTag.unplaced (t : OpenTag) : OpenTag := { t with position := {} }

def Outline.unplaced (o : Outline) : Outline where
  stmts := Statement.unplacedAll o.stmts
  opened := o.opened.map fun entry => (entry.1.unplaced, Statement.unplacedAll entry.2)

/-- A result without the positions in a value or in a fault. -/
def unplacedResult {α : Type} (unplaced : α → α) : Except Fault α → Except Fault α
  | .ok a => .ok (unplaced a)
  | .error fault => .error fault.unplaced

/-- A token as it is written, wherever it stands. -/
def LocatedToken.unplaced (t : LocatedToken) : LocatedToken := { t with position := {}, start := 0 }

@[simp] theorem LocatedToken.token_unplaced (t : LocatedToken) : t.unplaced.token = t.token := rfl

def Line.unplaced (line : Line) : Line := ⟨line.tokens.map (·.unplaced)⟩

namespace Line

/-- What the tokens of a line say, wherever they stand and however they are written. -/
def said (line : Line) : List Token := line.tokens.map (·.token)

theorem standalone_of_said {a b : Line} (same : a.said = b.said) : a.standalone = b.standalone := by
  have roles (line : Line) : line.tokens.map (role ·.token) = line.said.map role := by
    simp [said, Function.comp_def]
  simp only [standalone, roles, same]

theorem indent_of_said {a b : Line} (same : a.said = b.said) : a.indent = b.indent := by
  rw [indent, indent, standalone_of_said same]
  generalize b.standalone = alone
  obtain ⟨tokens⟩ := a
  obtain ⟨tokens'⟩ := b
  cases tokens with
  | nil =>
    obtain rfl : tokens' = [] := List.map_eq_nil_iff.mp same.symm
    rfl
  | cons t rest =>
    obtain ⟨u, others, rfl, first, _⟩ := List.map_eq_cons_iff.mp same.symm
    obtain ⟨token, _, _, _⟩ := t
    obtain ⟨token', _, _, _⟩ := u
    obtain rfl : token' = token := first
    cases alone <;> cases token' <;> rfl

theorem emitted_of_standalone {line : Line} (alone : line.standalone = true) :
    line.emitted = line.tokens.filter (·.token.isTag) := by
  rw [emitted]
  congr 1
  funext t
  simp [emits, alone]

theorem emitted_of_not_standalone {line : Line} (beside : line.standalone = false) : line.emitted = line.tokens := by
  simp [emitted, emits, beside]

section

variable {f : LocatedToken → LocatedToken}

theorem said_map (same : ∀ t, (f t).token = t.token) (line : Line) : (⟨line.tokens.map f⟩ : Line).said = line.said := by
  simp [said, same]

/-- Tokens that still say the same contribute to the output as before. -/
theorem emitted_map (same : ∀ t, (f t).token = t.token) (line : Line) :
    (⟨line.tokens.map f⟩ : Line).emitted = line.emitted.map f := by
  have alone := standalone_of_said (said_map same line)
  rw [emitted, List.filter_map]
  congr 1
  refine List.filter_congr fun t _ => ?_
  rw [Function.comp_apply, emits, alone, same, emits]

end

theorem standalone_unplaced (line : Line) : line.unplaced.standalone = line.standalone :=
  standalone_of_said (said_map LocatedToken.token_unplaced line)

theorem indent_unplaced (line : Line) : line.unplaced.indent = line.indent :=
  indent_of_said (said_map LocatedToken.token_unplaced line)

theorem emitted_unplaced (line : Line) : line.unplaced.emitted = line.emitted.map (·.unplaced) :=
  emitted_map LocatedToken.token_unplaced line

end Line

/-! ## The change -/

def Change.unplaced : Change where
  text := id
  place := fun _ => {}
  text_append _ _ := rfl
  isEmpty_text _ := rfl

mutual
theorem Statement.unplaced_eq (s : Statement) : s.unplaced = s.change .unplaced := by
  cases s with
  | sect name inverted body | parent name body | block name body =>
    rw [unplaced, change, unplacedAll_eq body]
    rfl
  | text | interpolation | inclusion => rfl

theorem Statement.unplacedAll_eq (stmts : List Statement) : unplacedAll stmts = changeAll .unplaced stmts := by
  cases stmts with
  | nil => rfl
  | cons s rest => rw [unplacedAll, changeAll, unplaced_eq s, unplacedAll_eq rest]
end

theorem Statement.unplacedAll_eq_map (stmts : List Statement) : unplacedAll stmts = stmts.map unplaced := by
  induction stmts with
  | nil => rfl
  | cons s r ih => rw [unplacedAll, ih, List.map_cons]

theorem Fault.unplaced_eq (fault : Fault) : fault.unplaced = fault.change .unplaced := by
  cases fault with
  | unreadable cause => cases cause <;> rfl
  | _ => rfl

theorem unplacedResult_eq {α : Type} (unplaced : α → α) (result : Except Fault α) :
    unplacedResult unplaced result = recast unplaced (Fault.change .unplaced) result := by
  cases result with
  | ok a => rfl
  | error fault => exact congrArg Except.error fault.unplaced_eq

theorem Change.Turns.unplaced (token : Token) : Change.unplaced.Turns token token := by
  cases token with
  | text content => exact .text
  | newline lineBreak => exact .newline rfl
  | delimiters previous next => exact .delimiters
  | tag name kind => exact .tag

theorem Change.TurnsLine.unplaced (line : Line) : Change.unplaced.TurnsLine (·.unplaced) line line.unplaced where
  standalone := line.standalone_unplaced
  indent := line.indent_unplaced
  emitted := line.emitted_unplaced
  turns t _ := .unplaced t.token
  place _ _ := rfl

/-! ## Reading -/

namespace Outline

theorem unplaced_eq (o : Outline) : o.unplaced = o.change .unplaced := by
  simp only [unplaced, change, Statement.unplacedAll_eq]
  rfl

/-- What every step leaves out, all of them leave out. -/
theorem unplaced_foldlM {α : Type} {step step' : Outline → α → Except Fault Outline} {change : α → α}
    (one : ∀ o a, unplacedResult unplaced (step o a) = step' o.unplaced (change a)) (items : List α) (o : Outline) :
    unplacedResult unplaced (items.foldlM step o) = (items.map change).foldlM step' o.unplaced := by
  rw [unplacedResult_eq]
  exact recast_foldlM (fun a _ o => (unplacedResult_eq unplaced _).symm.trans (one o a)) o

theorem unplaced_readLine (indent : String) (o : Outline) (line : Line) :
    unplacedResult unplaced (o.readLine indent line) = o.unplaced.readLine indent line.unplaced := by
  have left_out : unplaced = change .unplaced := funext unplaced_eq
  rw [unplacedResult_eq, left_out]
  exact change_readLine (.unplaced line) indent o

theorem unplaced_finish (o : Outline) :
    unplacedResult Statement.unplacedAll o.finish = o.unplaced.finish := by
  have left_out : Statement.unplacedAll = Statement.changeAll .unplaced := funext Statement.unplacedAll_eq
  rw [unplacedResult_eq, left_out, unplaced_eq]
  exact o.change_finish .unplaced

end Outline

/-- The statements that some lines yield are, without positions, those that the lines yield without positions. -/
theorem readLines_unplaced (indent : String) (lines : List Line) :
    unplacedResult Statement.unplacedAll (readLines indent lines) = readLines indent (lines.map (·.unplaced)) := by
  have left_out : Statement.unplacedAll = Statement.changeAll .unplaced := funext Statement.unplacedAll_eq
  rw [unplacedResult_eq, left_out]
  exact readLines_change (fun line _ => .unplaced line) indent

end Mustache

import Mustache.Proofs.Emission
import Mustache.Proofs.Unplaced

/-!
# The same statements elsewhere

What statements emit does not depend on where they stand: on how many levels are left and which templates are
open, as long as these let them pass, on the frames that carry no value (`Emits.elsewhere`), on positions
(`Emits.placed`), and on where a text is cut in two (`Emits.joinedAll`). Two compilations that come to the same
statements have the same nodes (`joined_eq_of_emits`).
-/

namespace Mustache
open Text

section

variable {c : Compiler} {levels levels' : Nat} {scope scope' : Scope} {chain chain' : List String}
  {overrides overrides' : Overrides} {stmts stmts' rest : List Statement} {met met' later : List (String × Resolution)}
  {nodes nodes' laterNodes : List Node}

/-! ## Places -/

/-- Only the values of a scope bear on what a name refers to. -/
theorem Scope.resolve_congr (same : scope'.values = scope.values) (name : String) :
    scope'.resolve name = scope.resolve name := by
  have innermost : scope'.innermost = scope.innermost := by
    apply Option.some.inj
    rw [← Scope.head?_values, ← Scope.head?_values, same]
  unfold Scope.resolve
  rw [same, innermost]

theorem Compiler.resolution?_congr (same : scope'.values = scope.values) (name : String) :
    c.resolution? scope' name = c.resolution? scope name := by
  unfold Compiler.resolution?
  rw [Scope.resolve_congr same]

theorem Scope.values_push_congr (same : scope'.values = scope.values) (frame : Frame) :
    (scope'.push frame).values = (scope.push frame).values := by
  rw [Scope.values_push, Scope.values_push, same]

/-- Below fewer templates there are also fewer with one more. -/
theorem Subset.below (fewer : chain' ⊆ chain) (name : String) : chain' ++ [name] ⊆ chain ++ [name] := by
  intro other member
  rcases List.mem_append.mp member with before | last
  · exact List.mem_append_left _ (fewer before)
  · exact List.mem_append_right _ last

/-- With more levels left, with fewer templates open and with the same values the same is emitted. -/
theorem Emits.elsewhere (emits : Emits c levels scope chain overrides stmts met nodes) (more : levels ≤ levels')
    (fewer : chain' ⊆ chain) (same : scope'.values = scope.values) :
    Emits c levels' scope' chain' overrides stmts met nodes := by
  induction emits generalizing levels' scope' chain' with
  | nil => exact .nil
  | text _ after => exact .text (after more fewer same)
  | interpolation refers _ after =>
    rw [← Compiler.resolution?_congr same] at refers
    exact .interpolation refers (after more fewer same)
  | lambda calls _ _ within after =>
    obtain ⟨k, rfl⟩ : ∃ k, levels' = k + 1 := Nat.exists_eq_add_one_of_ne_zero (by omega)
    have inner := within (Nat.le_of_succ_le_succ more) fewer (Scope.values_push_congr same .boundary)
    exact .lambda calls inner (after more fewer same)
  | sect plain refers _ _ within after =>
    obtain ⟨k, rfl⟩ : ∃ k, levels' = k + 1 := Nat.exists_eq_add_one_of_ne_zero (by omega)
    rw [← Compiler.resolution?_congr same] at refers
    have inner := within (Nat.le_of_succ_le_succ more) fewer (Scope.values_push_congr same _)
    exact .sect plain refers inner (after more fewer same)
  | inclusion fresh loaded parsed _ _ within after =>
    obtain ⟨k, rfl⟩ : ∃ k, levels' = k + 1 := Nat.exists_eq_add_one_of_ne_zero (by omega)
    have inner := within (Nat.le_of_succ_le_succ more) (Subset.below fewer _)
      (Scope.values_push_congr same .boundary)
    exact .inclusion (fun member => fresh (fewer member)) loaded parsed inner (after more fewer same)
  | parent fresh loaded parsed _ _ within after =>
    obtain ⟨k, rfl⟩ : ∃ k, levels' = k + 1 := Nat.exists_eq_add_one_of_ne_zero (by omega)
    have inner := within (Nat.le_of_succ_le_succ more) (Subset.below fewer _)
      (Scope.values_push_congr same .boundary)
    exact .parent (fun member => fresh (fewer member)) loaded parsed inner (after more fewer same)
  | replaced found _ _ within after =>
    obtain ⟨k, rfl⟩ : ∃ k, levels' = k + 1 := Nat.exists_eq_add_one_of_ne_zero (by omega)
    have inner := within (Nat.le_of_succ_le_succ more) fewer (Scope.values_push_congr same .boundary)
    exact .replaced found inner (after more fewer same)
  | block own _ _ within after =>
    obtain ⟨k, rfl⟩ : ∃ k, levels' = k + 1 := Nat.exists_eq_add_one_of_ne_zero (by omega)
    have inner := within (Nat.le_of_succ_le_succ more) fewer (Scope.values_push_congr same .boundary)
    exact .block own inner (after more fewer same)

/-- Whatever the levels, the templates and the frames around them are, statements have the same nodes. -/
theorem joined_eq_of_emits (first : Emits c levels scope chain overrides stmts met nodes)
    (second : Emits c levels' scope' chain' overrides stmts met' nodes') (same : scope'.values = scope.values) :
    Node.joined nodes = Node.joined nodes' := by
  -- Both are emitted where the higher of the levels is left and no template is open; and there one run gives both.
  have here := first.elsewhere (Nat.le_max_left levels levels') (List.nil_subset chain) rfl
  have there := second.elsewhere (Nat.le_max_right levels levels') (List.nil_subset chain') same.symm
  obtain ⟨t, run, _⟩ := Compiler.ok_of_emits here [] { scope } rfl rfl
  obtain ⟨t', run', _⟩ := Compiler.ok_of_emits there [] { scope } rfl rfl
  rw [run] at run'
  obtain ⟨built, _⟩ := EStateM.Result.ok.inj run'
  rw [Node.joined, built, Node.joined]

theorem Emits.append (first : Emits c levels scope chain overrides stmts met nodes)
    (second : Emits c levels scope chain overrides rest later laterNodes) :
    Emits c levels scope chain overrides (stmts ++ rest) (met ++ later) (nodes ++ laterNodes) := by
  induction first with
  | nil => exact second
  | text _ after => exact .text (after second)
  | interpolation refers _ after => exact .interpolation refers (after second)
  | lambda calls within _ _ after =>
    rw [List.append_assoc]
    exact .lambda calls within (after second)
  | sect plain refers within _ _ after =>
    simp only [List.cons_append, List.append_assoc]
    exact .sect plain refers within (after second)
  | inclusion fresh loaded parsed within _ _ after =>
    rw [List.append_assoc, List.append_assoc]
    exact .inclusion fresh loaded parsed within (after second)
  | parent fresh loaded parsed within _ _ after =>
    rw [List.append_assoc, List.append_assoc]
    exact .parent fresh loaded parsed within (after second)
  | replaced found within _ _ after =>
    rw [List.append_assoc, List.append_assoc]
    exact .replaced found within (after second)
  | block own within _ _ after =>
    rw [List.append_assoc, List.append_assoc]
    exact .block own within (after second)

end

/-! ## Positions -/

/-- Overrides without the positions in them. -/
def Overrides.unplaced (overrides : Overrides) : Overrides :=
  overrides.map fun entry => (entry.1, Statement.unplacedAll entry.2)

namespace Overrides

theorem unplaced_insertAll (added overrides : Overrides) :
    unplaced (Dictionary.insertAll added overrides) = Dictionary.insertAll (unplaced added) (unplaced overrides) :=
  Dictionary.mapValues_insertAll Statement.unplacedAll added overrides

theorem unplaced_erase (name : String) (overrides : Overrides) :
    unplaced (Dictionary.erase name overrides) = Dictionary.erase name (unplaced overrides) :=
  Dictionary.mapValues_erase Statement.unplacedAll name overrides

theorem find?_unplaced (name : String) (overrides : Overrides) :
    Dictionary.find? name (unplaced overrides) = (Dictionary.find? name overrides).map Statement.unplacedAll :=
  Dictionary.find?_mapValues Statement.unplacedAll name overrides

/-- Overrides that differ in positions only are there for the same names. -/
theorem find?_of_unplaced {overrides overrides' : Overrides} (same : overrides'.unplaced = overrides.unplaced)
    (name : String) : (Dictionary.find? name overrides').map Statement.unplacedAll =
      (Dictionary.find? name overrides).map Statement.unplacedAll := by
  rw [← find?_unplaced, same, find?_unplaced]

theorem unplaced_directBlocks (body : List Statement) :
    unplaced (Compiler.directBlocks body) = Compiler.directBlocks (Statement.unplacedAll body) := by
  have left_out : Statement.unplacedAll = Statement.changeAll .unplaced := funext Statement.unplacedAll_eq
  rw [left_out, ← change_directBlocks, unplaced, left_out]
  rfl

end Overrides

theorem Statement.unplacedAll_eq_cons {stmts rest : List Statement} {s : Statement}
    (same : unplacedAll stmts = s :: rest) :
    ∃ first others, stmts = first :: others ∧ first.unplaced = s ∧ unplacedAll others = rest := by
  rw [unplacedAll_eq_map] at same
  obtain ⟨first, others, rfl, one, others_same⟩ := List.map_eq_cons_iff.mp same
  exact ⟨first, others, rfl, one, by rw [unplacedAll_eq_map, others_same]⟩

/-- Statements that differ in positions only emit the same. -/
theorem Emits.placed {c : Compiler} {levels : Nat} {scope : Scope} {chain : List String}
    {overrides overrides' : Overrides} {stmts stmts' : List Statement} {met : List (String × Resolution)}
    {nodes : List Node} (emits : Emits c levels scope chain overrides stmts met nodes)
    (replaced : overrides'.unplaced = overrides.unplaced)
    (same : Statement.unplacedAll stmts' = Statement.unplacedAll stmts) :
    Emits c levels scope chain overrides' stmts' met nodes := by
  induction emits generalizing overrides' stmts' with
  | nil =>
    rw [Statement.unplacedAll_eq_map, Statement.unplacedAll, List.map_eq_nil_iff] at same
    rw [same]
    exact .nil
  | text _ after =>
    obtain ⟨first, others, rfl, one, behind⟩ := Statement.unplacedAll_eq_cons same
    cases first <;> simp only [Statement.unplaced, reduceCtorEq, Statement.text.injEq] at one
    rw [one]
    exact .text (after replaced behind)
  | interpolation refers _ after =>
    obtain ⟨first, others, rfl, one, behind⟩ := Statement.unplacedAll_eq_cons same
    cases first <;> simp only [Statement.unplaced, reduceCtorEq, Statement.interpolation.injEq] at one
    obtain ⟨rfl, rfl, _⟩ := one
    exact .interpolation refers (after replaced behind)
  | lambda calls _ _ within after =>
    obtain ⟨first, others, rfl, one, behind⟩ := Statement.unplacedAll_eq_cons same
    cases first <;> simp only [Statement.unplaced, reduceCtorEq, Statement.sect.injEq] at one
    obtain ⟨rfl, rfl, body, _⟩ := one
    exact .lambda calls (within replaced body) (after replaced behind)
  | sect plain refers _ _ within after =>
    obtain ⟨first, others, rfl, one, behind⟩ := Statement.unplacedAll_eq_cons same
    cases first <;> simp only [Statement.unplaced, reduceCtorEq, Statement.sect.injEq] at one
    obtain ⟨rfl, rfl, body, _⟩ := one
    exact .sect plain refers (within replaced body) (after replaced behind)
  | inclusion fresh loaded parsed within _ _ after =>
    obtain ⟨first, others, rfl, one, behind⟩ := Statement.unplacedAll_eq_cons same
    cases first <;> simp only [Statement.unplaced, reduceCtorEq, Statement.inclusion.injEq] at one
    obtain ⟨rfl, rfl, _⟩ := one
    exact .inclusion fresh loaded parsed within (after replaced behind)
  | parent fresh loaded parsed _ _ within after =>
    obtain ⟨first, others, rfl, one, behind⟩ := Statement.unplacedAll_eq_cons same
    cases first <;> simp only [Statement.unplaced, reduceCtorEq, Statement.parent.injEq] at one
    obtain ⟨rfl, body, _⟩ := one
    refine .parent fresh loaded parsed (within ?_ rfl) (after replaced behind)
    rw [Overrides.unplaced_insertAll, Overrides.unplaced_insertAll, replaced, Overrides.unplaced_directBlocks,
      Overrides.unplaced_directBlocks, body]
  | @replaced _ _ _ _ name _ _ _ _ _ _ _ _ found _ _ within after =>
    have there := Overrides.find?_of_unplaced replaced name
    rw [found] at there
    obtain ⟨first, others, rfl, one, behind⟩ := Statement.unplacedAll_eq_cons same
    cases first <;> simp only [Statement.unplaced, reduceCtorEq, Statement.block.injEq] at one
    obtain ⟨rfl, _, _⟩ := one
    obtain ⟨body, found', same_body⟩ := Option.map_eq_some_iff.mp there
    refine .replaced found' (within ?_ same_body) (after replaced behind)
    rw [Overrides.unplaced_erase, Overrides.unplaced_erase, replaced]
  | @block _ _ _ _ name _ _ _ _ _ _ _ own _ _ within after =>
    have there := Overrides.find?_of_unplaced replaced name
    rw [own] at there
    obtain ⟨first, others, rfl, one, behind⟩ := Statement.unplacedAll_eq_cons same
    cases first <;> simp only [Statement.unplaced, reduceCtorEq, Statement.block.injEq] at one
    obtain ⟨rfl, body, _⟩ := one
    exact .block (Option.map_eq_none_iff.mp there) (within replaced body) (after replaced behind)

/-! ## Statements without blocks -/

mutual
/-- No tag of certain kinds opens a scope in a statement, however deep. -/
def Statement.lacks (kinds : List ScopeKind) : Statement → Bool
  | .sect _ inverted body _ => !kinds.contains (.sect inverted) && Statement.lacksAll kinds body
  | .parent _ body _ => !kinds.contains .parent && Statement.lacksAll kinds body
  | .block _ body _ => !kinds.contains .block && Statement.lacksAll kinds body
  | .text _ | .interpolation .. | .inclusion .. => true

def Statement.lacksAll (kinds : List ScopeKind) : List Statement → Bool
  | [] => true
  | s :: r => s.lacks kinds && Statement.lacksAll kinds r
end

namespace Statement

variable {kinds : List ScopeKind} {s : Statement} {body rest : List Statement} {name : String} {inverted : Bool}
  {position : Position}

theorem lacksAll_cons_iff :
    lacksAll kinds (s :: rest) = true ↔ lacksAll kinds [s] = true ∧ lacksAll kinds rest = true := by
  simp [lacksAll]

theorem lacksAll_sect_iff : lacksAll kinds [.sect name inverted body position] = true ↔
    .sect inverted ∉ kinds ∧ lacksAll kinds body = true := by
  simp [lacksAll, lacks]

theorem lacksAll_parent_iff : lacksAll kinds [.parent name body position] = true ↔
    .parent ∉ kinds ∧ lacksAll kinds body = true := by
  simp [lacksAll, lacks]

theorem lacksAll_block_iff : lacksAll kinds [.block name body position] = true ↔
    .block ∉ kinds ∧ lacksAll kinds body = true := by
  simp [lacksAll, lacks]

end Statement

/-- Neither a block stands in some statements nor a parent, which would make use of overrides. -/
def Plain (stmts : List Statement) : Prop := Statement.lacksAll [.parent, .block] stmts = true

instance (stmts : List Statement) : Decidable (Plain stmts) := inferInstanceAs (Decidable (_ = true))

section

variable {c : Compiler} {levels : Nat} {scope : Scope} {chain : List String} {overrides : Overrides}
  {stmts : List Statement} {met : List (String × Resolution)} {nodes : List Node}

/-- Overrides do not bear on statements without blocks. -/
theorem Emits.overridden (emits : Emits c levels scope chain overrides stmts met nodes) (plain : Plain stmts)
    (overrides' : Overrides) : Emits c levels scope chain overrides' stmts met nodes := by
  induction emits with
  | nil => exact .nil
  | text _ after => exact .text (after (Statement.lacksAll_cons_iff.mp plain).2)
  | interpolation refers _ after => exact .interpolation refers (after (Statement.lacksAll_cons_iff.mp plain).2)
  | lambda calls _ _ within after =>
    obtain ⟨one, others⟩ := Statement.lacksAll_cons_iff.mp plain
    exact .lambda calls (within (Statement.lacksAll_sect_iff.mp one).2) (after others)
  | sect ordinary refers _ _ within after =>
    obtain ⟨one, others⟩ := Statement.lacksAll_cons_iff.mp plain
    exact .sect ordinary refers (within (Statement.lacksAll_sect_iff.mp one).2) (after others)
  | inclusion fresh loaded parsed within _ _ after =>
    exact .inclusion fresh loaded parsed within (after (Statement.lacksAll_cons_iff.mp plain).2)
  | parent =>
    obtain ⟨one, _⟩ := Statement.lacksAll_cons_iff.mp plain
    exact absurd (by decide) (Statement.lacksAll_parent_iff.mp one).1
  | replaced =>
    obtain ⟨one, _⟩ := Statement.lacksAll_cons_iff.mp plain
    exact absurd (by decide) (Statement.lacksAll_block_iff.mp one).1
  | block =>
    obtain ⟨one, _⟩ := Statement.lacksAll_cons_iff.mp plain
    exact absurd (by decide) (Statement.lacksAll_block_iff.mp one).1

end

/-! ## Cuts of texts -/

/-- Puts a statement in front of others; a text joins the text behind it. -/
def Statement.inFront : Statement → List Statement → List Statement
  | .text content, .text behind :: r => .text (content ++ behind) :: r
  | s, stmts => s :: stmts

mutual
/-- A statement with adjacent texts joined in its body, however deep. -/
def Statement.joined : Statement → Statement
  | .sect name inverted body position => .sect name inverted (Statement.joinedAll body) position
  | .parent name body position => .parent name (Statement.joinedAll body) position
  | .block name body position => .block name (Statement.joinedAll body) position
  | s => s

def Statement.joinedAll : List Statement → List Statement
  | [] => []
  | s :: r => Statement.inFront s.joined (Statement.joinedAll r)
end

theorem Node.foldl_push_congr {a b : List Node} (same : joined a = joined b) (before : List Node) :
    a.foldl push before = b.foldl push before := by
  rw [← foldl_push_joined a, same, foldl_push_joined]

theorem Node.joined_append_congr {a b a' b' : List Node} (first : joined a' = joined a) (second : joined b' = joined b) :
    joined (a' ++ b') = joined (a ++ b) := by
  rw [joined, List.foldl_append, foldl_push_congr first, foldl_push_congr second, ← List.foldl_append, joined]

theorem Node.joined_cons_congr {a a' : List Node} (same : joined a' = joined a) (n : Node) :
    joined (n :: a') = joined (n :: a) := by
  have front : joined [n] = joined [n] := rfl
  exact joined_append_congr front same

theorem Node.joined_texts (a b : String) (nodes : List Node) :
    joined (.text (a ++ b) :: nodes) = joined (.text a :: .text b :: nodes) := by
  rfl

theorem Statement.inFront_text_cases (content : String) (stmts : List Statement) :
    (∃ behind rest, stmts = .text behind :: rest) ∨ inFront (.text content) stmts = .text content :: stmts := by
  cases stmts with
  | nil => exact .inr rfl
  | cons s rest =>
    cases s with
    | text behind => exact .inl ⟨behind, rest, rfl⟩
    | _ => exact .inr rfl

/-- A text that is cut in two emits what it emits whole. -/
theorem emits_inFront_text {c : Compiler} {levels : Nat} {scope : Scope} {chain : List String} {overrides : Overrides}
    {stmts : List Statement} {met : List (String × Resolution)} {nodes : List Node}
    (emits : Emits c levels scope chain overrides stmts met nodes) (content : String) :
    ∃ nodes', Emits c levels scope chain overrides (Statement.inFront (.text content) stmts) met nodes' ∧
      Node.joined nodes' = Node.joined (.text content :: nodes) := by
  rcases Statement.inFront_text_cases content stmts with ⟨behind, rest, rfl⟩ | apart
  · cases emits with
    | @text _ _ _ _ _ _ _ nodes after =>
      exact ⟨.text (content ++ behind) :: nodes, .text after, Node.joined_texts content behind nodes⟩
  · rw [apart]
    exact ⟨_, .text emits, rfl⟩

/-- Statements without blocks emit the same, however their texts are cut. -/
theorem Emits.joinedAll {c : Compiler} {levels : Nat} {scope : Scope} {chain : List String} {overrides : Overrides}
    {stmts : List Statement} {met : List (String × Resolution)} {nodes : List Node}
    (emits : Emits c levels scope chain overrides stmts met nodes) (plain : Plain stmts) :
    ∃ nodes', Emits c levels scope chain overrides (Statement.joinedAll stmts) met nodes' ∧
      Node.joined nodes' = Node.joined nodes := by
  induction emits with
  | nil => exact ⟨[], .nil, rfl⟩
  | @text _ _ _ _ content _ _ _ _ after =>
    obtain ⟨behind, emits, same⟩ := after (Statement.lacksAll_cons_iff.mp plain).2
    obtain ⟨nodes', whole, joined⟩ := emits_inFront_text emits content
    exact ⟨nodes', whole, joined.trans (Node.joined_cons_congr same _)⟩
  | interpolation refers _ after =>
    obtain ⟨behind, emits, same⟩ := after (Statement.lacksAll_cons_iff.mp plain).2
    exact ⟨_, .interpolation refers emits, Node.joined_cons_congr same _⟩
  | lambda calls _ _ within after =>
    obtain ⟨one, others⟩ := Statement.lacksAll_cons_iff.mp plain
    obtain ⟨inner, inside, same⟩ := within (Statement.lacksAll_sect_iff.mp one).2
    obtain ⟨behind, emits, same_behind⟩ := after others
    refine ⟨_, .lambda calls inside emits, ?_⟩
    rw [same]
    exact Node.joined_cons_congr same_behind _
  | sect ordinary refers _ _ within after =>
    obtain ⟨one, others⟩ := Statement.lacksAll_cons_iff.mp plain
    obtain ⟨inner, inside, same⟩ := within (Statement.lacksAll_sect_iff.mp one).2
    obtain ⟨behind, emits, same_behind⟩ := after others
    refine ⟨_, .sect ordinary refers inside emits, ?_⟩
    rw [same]
    exact Node.joined_cons_congr same_behind _
  | inclusion fresh loaded parsed within _ _ after =>
    obtain ⟨behind, emits, same⟩ := after (Statement.lacksAll_cons_iff.mp plain).2
    exact ⟨_, .inclusion fresh loaded parsed within emits, Node.joined_append_congr rfl same⟩
  | parent =>
    obtain ⟨one, _⟩ := Statement.lacksAll_cons_iff.mp plain
    exact absurd (by decide) (Statement.lacksAll_parent_iff.mp one).1
  | replaced =>
    obtain ⟨one, _⟩ := Statement.lacksAll_cons_iff.mp plain
    exact absurd (by decide) (Statement.lacksAll_block_iff.mp one).1
  | block =>
    obtain ⟨one, _⟩ := Statement.lacksAll_cons_iff.mp plain
    exact absurd (by decide) (Statement.lacksAll_block_iff.mp one).1

end Mustache

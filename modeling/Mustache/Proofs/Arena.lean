import Mustache.Proofs.Relocation

/-!
# Scopes in an arena

The frames of a scope can be kept in an arena, where each of them is linked to the one around it and the place of the
innermost one is kept beside them. Whatever is pushed and popped, that comes to a plain stack (`Arena.Stacked`): the
innermost frame is the last one, and each is linked to the one before it. Names resolve in the arena as in the scope,
and as they would without the frames that carry no value (`Arena.arena_is_stack`).
-/

namespace Mustache
open Text

/-! ## Linked frames -/

/-- A frame, and the place of the one around it. -/
structure ArenaEntry where
  frame : Frame
  outer? : Option Nat

/-- All links of some entries lead backwards, so following them comes to an end. -/
def Backwards (entries : List ArenaEntry) : Prop :=
  ∀ (i : Nat) (entry : ArenaEntry) (outer : Nat), entries[i]? = some entry → entry.outer? = some outer → outer < i

theorem backwards_append {entries : List ArenaEntry} (backwards : Backwards entries) {frame : Frame} {outer : Nat}
    (inside : outer < entries.length) : Backwards (entries ++ [⟨frame, some outer⟩]) := by
  intro i entry next here linked
  rw [List.getElem?_append] at here
  split at here
  · exact backwards i entry next here linked
  · rw [List.getElem?_singleton] at here
    split at here
    · cases here
      cases linked
      omega
    · cases here

theorem backwards_take {entries : List ArenaEntry} (backwards : Backwards entries) (n : Nat) :
    Backwards (entries.take n) := by
  intro i entry outer here linked
  rw [List.getElem?_take] at here
  split at here
  · exact backwards i entry outer here linked
  · cases here

/-- Linked frames, and the place of the innermost one. -/
structure Arena where
  entries : List ArenaEntry
  current : Nat
  inside : current < entries.length
  backwards : Backwards entries

namespace Arena

/-- The frame of the model alone. -/
def new (schema : Schema) : Arena where
  entries := [⟨.value schema, none⟩]
  current := 0
  inside := Nat.zero_lt_one
  backwards i entry outer here linked := by
    obtain ⟨-, rfl⟩ : i = 0 ∧ ⟨.value schema, none⟩ = entry := by simpa [List.getElem?_singleton] using here
    cases linked

/-- Adds a frame that is linked to the innermost one. -/
def push (a : Arena) (frame : Frame) : Arena where
  entries := a.entries ++ [⟨frame, some a.current⟩]
  current := a.entries.length
  inside := by simp
  backwards := backwards_append a.backwards a.inside

def innermost (a : Arena) : ArenaEntry := a.entries.get ⟨a.current, a.inside⟩

theorem getElem?_current (a : Arena) : a.entries[a.current]? = some a.innermost := List.getElem?_eq_getElem a.inside

/-- Goes back to the frame that the innermost one is linked to, and cuts off what lies behind; the frame of the model
is linked to none. -/
def pop (a : Arena) : Arena :=
  match linked : a.innermost.outer? with
  | none => a
  | some outer => {
      entries := a.entries.take a.current
      current := outer
      inside := by
        have back := a.backwards a.current a.innermost outer a.getElem?_current linked
        rw [List.length_take, Nat.min_eq_left (Nat.le_of_lt a.inside)]
        exact back
      backwards := backwards_take a.backwards a.current }

/-- How many frames there are beside that of the model. -/
def depth (a : Arena) : Nat := a.entries.length - 1

/-- The frame at a place and those that its links lead to. -/
def outward (a : Arena) (i : Nat) : List Frame :=
  match here : a.entries[i]? with
  | none => []
  | some entry =>
    match linked : entry.outer? with
    | none => [entry.frame]
    | some outer =>
      have : outer < i := a.backwards i entry outer here linked
      entry.frame :: a.outward outer
termination_by i

theorem outward_of_unlinked {a : Arena} {i : Nat} {entry : ArenaEntry} (here : a.entries[i]? = some entry)
    (unlinked : entry.outer? = none) : a.outward i = [entry.frame] := by
  rw [outward]
  split
  · simp_all
  · next other there =>
    obtain rfl : entry = other := Option.some.inj (here.symm.trans there)
    split
    · rfl
    · simp_all

theorem outward_of_linked {a : Arena} {i outer : Nat} {entry : ArenaEntry} (here : a.entries[i]? = some entry)
    (linked : entry.outer? = some outer) : a.outward i = entry.frame :: a.outward outer := by
  rw [outward]
  split
  · simp_all
  · next other there =>
    obtain rfl : entry = other := Option.some.inj (here.symm.trans there)
    split
    · simp_all
    · next next same =>
      obtain rfl : outer = next := Option.some.inj (linked.symm.trans same)
      rfl

/-- The schemas of the values, innermost first. -/
def values (a : Arena) : List Schema := (a.outward a.current).filterMap Frame.schema?

/-- What a name refers to, found by following the links. -/
def resolve (a : Arena) (name : String) : Option Resolution :=
  if name = "." ∨ name = "this" then some ⟨.current 0, a.values.head?.getD .any⟩
  else
    match Scope.segments name with
    | [] => none
    | first :: rest =>
      if first = "this" then do
        some ⟨.frame 0 rest, ← Scope.descend? rest (← a.values.head?)⟩
      else do
        let (up, schema, searched) ← Scope.walk first 0 a.values
        let schema ← Scope.descend? rest schema
        some ⟨if searched then .search up (first :: rest) else .frame up (first :: rest), schema⟩

end Arena

/-- What happens to a scope, wherever it is kept. -/
inductive ScopeMove where
  | push (frame : Frame)
  | pop

def Arena.move (a : Arena) : ScopeMove → Arena
  | .push frame => a.push frame
  | .pop => a.pop

def Scope.move (s : Scope) : ScopeMove → Scope
  | .push frame => s.push frame
  | .pop => s.pop

/-- A move on a plain list of frames, outermost first, of which the first one stays. -/
def stackMove (stack : List Frame) : ScopeMove → List Frame
  | .push frame => stack ++ [frame]
  | .pop => if 1 < stack.length then stack.dropLast else stack

def Arena.after (schema : Schema) (moves : List ScopeMove) : Arena := moves.foldl Arena.move (.new schema)

def Scope.after (schema : Schema) (moves : List ScopeMove) : Scope := moves.foldl Scope.move { model := schema }

def stackAfter (schema : Schema) (moves : List ScopeMove) : List Frame := moves.foldl stackMove [.value schema]

/-- The frames that carry a value. -/
def Frame.carries (frame : Frame) : Bool := frame.schema?.isSome

/-! ## Stacks -/

/-- An arena is a stack: its frames are those of a list, the innermost one is the last, and each is linked to the one
before it. -/
structure Arena.Stacked (a : Arena) (stack : List Frame) : Prop where
  frames : a.entries.map (·.frame) = stack
  last : a.current + 1 = a.entries.length
  links : ∀ (i : Nat) (entry : ArenaEntry), a.entries[i]? = some entry →
    entry.outer? = if i = 0 then none else some (i - 1)

namespace Arena.Stacked

variable {a : Arena} {stack : List Frame}

theorem new (schema : Schema) : (Arena.new schema).Stacked [.value schema] where
  frames := rfl
  last := rfl
  links i entry here := by
    obtain ⟨rfl, rfl⟩ : i = 0 ∧ ⟨.value schema, none⟩ = entry := by
      simpa [Arena.new, List.getElem?_singleton] using here
    rfl

theorem length_eq (stacked : a.Stacked stack) : a.entries.length = stack.length := by
  rw [← stacked.frames, List.length_map]

theorem push (stacked : a.Stacked stack) (frame : Frame) : (a.push frame).Stacked (stack ++ [frame]) where
  frames := by
    rw [Arena.push, List.map_append, stacked.frames]
    rfl
  last := by simp [Arena.push]
  links i entry here := by
    have last := stacked.last
    rw [Arena.push, List.getElem?_append] at here
    split at here
    · exact stacked.links i entry here
    · rw [List.getElem?_singleton] at here
      split at here
      · obtain rfl : ⟨frame, some a.current⟩ = entry := Option.some.inj here
        have behind : i ≠ 0 := by omega
        have before : a.current = i - 1 := by omega
        rw [if_neg behind, before]
      · cases here

/-- The frame of the model is never popped, any other one is. -/
theorem pop (stacked : a.Stacked stack) : a.pop.Stacked (if 1 < stack.length then stack.dropLast else stack) := by
  have last := stacked.last
  have length := stacked.length_eq
  have link := stacked.links a.current a.innermost a.getElem?_current
  unfold Arena.pop
  split
  · next linked =>
    rw [linked] at link
    have bottom : a.current = 0 := by
      by_contra further
      simp [further] at link
    rw [if_neg (by omega)]
    exact stacked
  · next outer linked =>
    rw [linked] at link
    have further : a.current ≠ 0 := by
      rintro bottom
      simp [bottom] at link
    obtain rfl : outer = a.current - 1 := by simpa [further] using link
    rw [if_pos (by omega)]
    refine ⟨?_, ?_, ?_⟩
    · have before : a.current = stack.length - 1 := by omega
      rw [List.map_take, stacked.frames, before, List.dropLast_eq_take]
    · show a.current - 1 + 1 = (a.entries.take a.current).length
      rw [List.length_take]
      omega
    · intro i entry here
      rw [List.getElem?_take] at here
      split at here
      · exact stacked.links i entry here
      · cases here

/-- The entry at a place of the stack. -/
theorem entry_at (stacked : a.Stacked stack) {i : Nat} (inside : i < stack.length) :
    ∃ entry, a.entries[i]? = some entry ∧ entry.frame = stack[i] := by
  have bound : i < a.entries.length := stacked.length_eq ▸ inside
  refine ⟨a.entries[i], List.getElem?_eq_getElem bound, ?_⟩
  simp only [← stacked.frames, List.getElem_map]

theorem move (stacked : a.Stacked stack) (m : ScopeMove) : (a.move m).Stacked (stackMove stack m) := by
  cases m with
  | push frame => exact stacked.push frame
  | pop => exact stacked.pop

/-- The links lead through the stack to its bottom, frame by frame. -/
theorem outward_eq (stacked : a.Stacked stack) {i : Nat} (inside : i < stack.length) :
    a.outward i = (stack.take (i + 1)).reverse := by
  induction i with
  | zero =>
    obtain ⟨entry, here, frame⟩ := stacked.entry_at inside
    rw [outward_of_unlinked here (stacked.links 0 entry here), frame, List.take_succ_eq_append_getElem inside]
    rfl
  | succ i ih =>
    obtain ⟨entry, here, frame⟩ := stacked.entry_at inside
    rw [outward_of_linked here (stacked.links (i + 1) entry here), frame, List.take_succ_eq_append_getElem inside,
      List.reverse_append]
    exact congrArg _ (ih (Nat.lt_of_succ_lt inside))

theorem values_eq (stacked : a.Stacked stack) : a.values = stack.reverse.filterMap Frame.schema? := by
  have length := stacked.length_eq
  have last := stacked.last
  have inside : a.current < stack.length := by omega
  have whole : a.current + 1 = stack.length := by omega
  rw [values, stacked.outward_eq inside, whole, List.take_length]

end Arena.Stacked

section

variable (schema : Schema) (moves : List ScopeMove)

/-- An arena is a stack, whatever has happened. -/
theorem stacked_after : (Arena.after schema moves).Stacked (stackAfter schema moves) := by
  suffices general : ∀ {a : Arena} {stack : List Frame}, a.Stacked stack →
      (moves.foldl Arena.move a).Stacked (moves.foldl stackMove stack) from general (.new schema)
  induction moves with
  | nil => exact id
  | cons m rest ih => exact fun stacked => ih (stacked.move m)

/-- The frames of a scope that has the schema of a model, outermost first. -/
def Scope.stack (s : Scope) : List Frame := .value s.model :: s.frames.reverse

theorem Scope.stack_move (s : Scope) (m : ScopeMove) : (s.move m).stack = stackMove s.stack m := by
  cases m with
  | push frame => simp [stack, move, stackMove, push]
  | pop =>
    obtain ⟨model, frames⟩ := s
    cases frames with
    | nil => rfl
    | cons frame outer =>
      have cut : (.value model :: (outer.reverse ++ [frame])).dropLast = .value model :: outer.reverse := by
        rw [← List.cons_append, List.dropLast_concat]
      simp [stack, move, stackMove, pop, cut]

theorem Scope.model_after : (Scope.after schema moves).model = schema := by
  suffices general : ∀ s : Scope, (moves.foldl Scope.move s).model = s.model from general { model := schema }
  induction moves with
  | nil => exact fun s => rfl
  | cons m rest ih =>
    intro s
    rw [List.foldl_cons, ih]
    cases m <;> rfl

/-- A scope is the same stack. -/
theorem Scope.stack_after : (Scope.after schema moves).stack = stackAfter schema moves := by
  suffices general : ∀ s : Scope, (moves.foldl Scope.move s).stack = moves.foldl stackMove s.stack from
    general { model := schema }
  induction moves with
  | nil => exact fun s => rfl
  | cons m rest ih =>
    intro s
    rw [List.foldl_cons, List.foldl_cons, ih, stack_move]

end

/-! ## Resolving -/

theorem Scope.values_eq_stack (s : Scope) : s.values = s.stack.reverse.filterMap Frame.schema? := by
  simp [values, stack, Frame.schema?]

/-- Names resolve by the values alone. -/
theorem Arena.resolve_eq {a : Arena} {s : Scope} (same : a.values = s.values) (name : String) :
    a.resolve name = s.resolve name := by
  have top : a.values.head? = some s.innermost := by rw [same, Scope.head?_values]
  unfold resolve Scope.resolve
  rw [top, same]
  rfl

/-- Of the frames of a stack only those that carry a value bear on its values. -/
theorem filterMap_carries (frames : List Frame) :
    (frames.filter Frame.carries).filterMap Frame.schema? = frames.filterMap Frame.schema? := by
  rw [List.filterMap_filter]
  congr 1
  funext frame
  cases frame <;> rfl

/-- Frames that are pushed one after another make up the stack. -/
theorem stackAfter_pushes (schema : Schema) (frames : List Frame) :
    stackAfter schema (frames.map .push) = .value schema :: frames := by
  suffices general : ∀ stack : List Frame, (frames.map ScopeMove.push).foldl stackMove stack = stack ++ frames from
    general [.value schema]
  induction frames with
  | nil => simp
  | cons frame rest ih =>
    intro stack
    rw [List.map_cons, List.foldl_cons, ih]
    simp [stackMove]

namespace Arena

/-- Arenas whose values are the same resolve the same. -/
theorem resolve_congr {a b : Arena} (same : a.values = b.values) (name : String) : a.resolve name = b.resolve name := by
  unfold resolve
  rw [same]

/-- The frames without a value may be left out of an arena. -/
theorem values_bare (schema : Schema) (moves : List ScopeMove) :
    (Arena.after schema (((stackAfter schema moves).tail.filter Frame.carries).map .push)).values =
      (Arena.after schema moves).values := by
  have whole : stackAfter schema moves = .value schema :: (stackAfter schema moves).tail := by
    rw [← Scope.stack_after, Scope.stack, Scope.model_after]
    rfl
  have bare := (stacked_after schema (((stackAfter schema moves).tail.filter Frame.carries).map .push)).values_eq
  rw [stackAfter_pushes, List.filterMap_reverse, List.filterMap_cons, filterMap_carries] at bare
  rw [bare, (stacked_after schema moves).values_eq, List.filterMap_reverse]
  conv_rhs => rw [whole, List.filterMap_cons]

/-- Whatever is pushed and popped, an arena is a plain stack, of which the frame of the model is the bottom and stays.
The scope is the same stack. A name resolves in the arena as it does in the scope, and as it does in an arena that has
none but the frames that carry a value. -/
theorem arena_is_stack (schema : Schema) (moves : List ScopeMove) :
    (Arena.after schema moves).Stacked (stackAfter schema moves) ∧
      (stackAfter schema moves).head? = some (.value schema) ∧
      (Arena.after schema moves).depth = (stackAfter schema moves).length - 1 ∧
      (Scope.after schema moves).stack = stackAfter schema moves ∧
      (Scope.after schema moves).depth = (Arena.after schema moves).depth ∧
      ∀ name, (Arena.after schema moves).resolve name = (Scope.after schema moves).resolve name ∧
        (Arena.after schema (((stackAfter schema moves).tail.filter Frame.carries).map .push)).resolve name =
          (Arena.after schema moves).resolve name := by
  have stacked := stacked_after schema moves
  have stack := Scope.stack_after schema moves
  have values : (Arena.after schema moves).values = (Scope.after schema moves).values := by
    rw [stacked.values_eq, Scope.values_eq_stack, stack]
  have length : (stackAfter schema moves).length = (Scope.after schema moves).depth + 1 := by
    rw [← stack, Scope.stack, List.length_cons, List.length_reverse, Scope.depth]
  refine ⟨stacked, ?_, ?_, stack, ?_, fun name => ⟨resolve_eq values name, ?_⟩⟩
  · rw [← stack, Scope.stack, Scope.model_after]
    rfl
  · rw [depth, stacked.length_eq]
  · rw [depth, stacked.length_eq, length, Nat.add_sub_cancel]
  · exact resolve_congr (values_bare schema moves) name

/-- The frame of the model cannot be popped. -/
example : (Arena.after .any [.push .test, .pop, .pop, .push .boundary, .push (.value .bool), .pop]).depth = 1 := rfl

end Arena
end Mustache

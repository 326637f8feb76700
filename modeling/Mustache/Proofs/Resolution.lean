import Mathlib.Data.List.Forall2
import Mustache.Proofs.Conformance
import Mustache.Statement.Reader

/-!
# Resolution agrees with search

A name can be looked for without any knowledge of the values: its first segment from the innermost value
outward, the others as direct parts (`plainSearch`). Resolving it by the schemas of the values picks the
same value, and refuses only names for which there is none (`resolve_agrees_with_search`), unless the first
segment is an index that overruns the list at which resolution stops (`Overruns`).
-/

namespace Mustache
open Text

/-! ## Searching -/

/-- The part that a name stands for in the innermost value that has one. -/
def outward (name : String) : List Value → Option Value
  | [] => none
  | v :: outer =>
    match v.child? name with
    | some part => some part
    | none => outward name outer

/-- What a name stands for on a stack: a point and `this` for the innermost value, `this.x` for a part of
it, any other name for what its first segment leads to outward and the others lead to from there. -/
def plainSearch (stack : List Value) (name : String) : Option Value :=
  if name = "." ∨ name = "this" then stack.head?
  else
    match Scope.segments name with
    | [] => none
    | first :: rest =>
      if first = "this" then stack.head?.bind (Value.descend? rest)
      else (outward first stack).bind (Value.descend? rest)

def firstSegment (name : String) : String := (Scope.segments name).headD ""

theorem searchFor_eq_outward (name : String) (stack : List Value) :
    Lookup.searchFor name stack = outward name stack := by
  induction stack with
  | nil => rfl
  | cons v outer ih =>
    cases child : v.child? name with
    | none => simpa [Lookup.searchFor, outward, child] using ih
    | some part => simp [Lookup.searchFor, outward, child]

/-- Values without a part do not matter for a search. -/
theorem outward_drop {name : String} {stack : List Value} {n : Nat}
    (missing : ∀ v ∈ stack.take n, v.child? name = none) : outward name (stack.drop n) = outward name stack := by
  induction n generalizing stack with
  | zero => rfl
  | succ n ih =>
    cases stack with
    | nil => rfl
    | cons v outer =>
      rw [List.take_succ_cons, List.forall_mem_cons] at missing
      simpa [outward, missing.1] using ih missing.2

/-! ## Walking through schemas -/

/-- The walk for a name stops at a schema: it may have such a part, and none further in has. -/
def Stops (name : String) (schemas : List Schema) (i : Nat) (s : Schema) : Prop :=
  schemas[i]? = some s ∧ s.field name ≠ .absent ∧ ∀ t ∈ schemas.take i, t.field name = .absent

/-- The walk for an index stops at a list, and the array there has no such item. -/
def Overruns (name : String) (schemas : List Schema) (stack : List Value) : Prop :=
  ∃ (i : Nat) (element : Schema) (items : List Value) (n : Nat), Stops name schemas i (.list element) ∧
    stack[i]? = some (.array items) ∧ index? name.toList = some n ∧ items.length ≤ n

theorem Stops.le {name : String} {schemas : List Schema} {i j : Nat} {s t : Schema}
    (first : Stops name schemas i s) (second : Stops name schemas j t) : i ≤ j := by
  by_contra later
  have earlier : t ∈ schemas.take i := by
    apply List.mem_of_getElem? (i := j)
    rw [List.getElem?_take_of_lt (by omega)]
    exact second.1
  exact second.2.1 (first.2.2 t earlier)

/-- A walk stops at one schema only. -/
theorem Stops.unique {name : String} {schemas : List Schema} {i j : Nat} {s t : Schema}
    (first : Stops name schemas i s) (second : Stops name schemas j t) : i = j ∧ s = t := by
  obtain rfl : i = j := Nat.le_antisymm (first.le second) (second.le first)
  exact ⟨rfl, Option.some.inj (first.1.symm.trans second.1)⟩

/-- Where a walk stops, and what it answers. -/
theorem walk_cases (name : String) (up : Nat) (schemas : List Schema) :
    Scope.walk name up schemas = none ∧ (∀ s ∈ schemas, s.field name = .absent) ∨
      ∃ i s, Stops name schemas i s ∧
        ((∃ t, s.field name = .found t ∧ Scope.walk name up schemas = some (up + i, t, false)) ∨
          s = .any ∧ Scope.walk name up schemas = some (up + i, .any, true)) := by
  induction schemas generalizing up with
  | nil => exact .inl ⟨rfl, by simp⟩
  | cons s outer ih =>
    cases known : s.field name with
    | found t =>
      have here : Stops name (s :: outer) 0 s := ⟨rfl, by simp [known], by simp⟩
      exact .inr ⟨0, s, here, .inl ⟨t, known, by simp [Scope.walk, known]⟩⟩
    | unknown =>
      have here : Stops name (s :: outer) 0 s := ⟨rfl, by simp [known], by simp⟩
      exact .inr ⟨0, s, here, .inr ⟨Schema.field_eq_unknown_iff.mp known, by simp [Scope.walk, known]⟩⟩
    | absent =>
      have step : Scope.walk name up (s :: outer) = Scope.walk name (up + 1) outer := by simp [Scope.walk, known]
      rcases ih (up + 1) with ⟨nowhere, absent⟩ | ⟨i, u, ⟨here, present, absent⟩, answer⟩
      · exact .inl ⟨step.trans nowhere, by simpa [known] using absent⟩
      · have shift : up + 1 + i = up + (i + 1) := by omega
        have further : Stops name (s :: outer) (i + 1) u := ⟨here, present, by simpa [known] using absent⟩
        exact .inr ⟨i + 1, u, further, by rwa [step, ← shift]⟩

namespace Scope

theorem values_push (scope : Scope) (frame : Frame) :
    (scope.push frame).values = frame.schema?.toList ++ scope.values := by
  cases frame <;> rfl

theorem head?_values (scope : Scope) : scope.values.head? = some scope.innermost := by
  rw [values, innermost, List.head?_append, List.head?_filterMap]
  cases scope.frames.findSome? Frame.schema? <;> rfl

end Scope

section

variable {schemas : List Schema} {stack : List Value} {name : String}

theorem child_of_all_absent (fits : List.Forall₂ Conforms schemas stack)
    (absent : ∀ s ∈ schemas, s.field name = .absent) : ∀ v ∈ stack, v.child? name = none := by
  induction fits with
  | nil => simp
  | cons conforms _ ih =>
    rw [List.forall_mem_cons] at absent ⊢
    exact ⟨conforms.child_of_absent absent.1, ih absent.2⟩

theorem outward_of_missing (missing : ∀ v ∈ stack, v.child? name = none) : outward name stack = none := by
  rw [← Mustache.outward_drop (n := stack.length) fun v member => missing v (List.mem_of_mem_take member)]
  simp [outward]

/-- A search may begin where the walk through the schemas stops. -/
theorem Stops.outward_drop {i : Nat} {s : Schema} (stops : Stops name schemas i s)
    (fits : List.Forall₂ Conforms schemas stack) : outward name (stack.drop i) = outward name stack :=
  Mustache.outward_drop (child_of_all_absent (List.forall₂_take i fits) stops.2.2)

theorem exists_of_fits (fits : List.Forall₂ Conforms schemas stack) {i : Nat} {s : Schema}
    (here : schemas[i]? = some s) : ∃ v, stack[i]? = some v ∧ Conforms s v := by
  obtain ⟨inside, rfl⟩ := List.getElem?_eq_some_iff.mp here
  have bound : i < stack.length := fits.length_eq ▸ inside
  exact ⟨stack[i], List.getElem?_eq_getElem bound, fits.get inside bound⟩

/-- Where a known part is missing, an index overruns a list; else the search finds that part. -/
theorem Stops.found_cases {i : Nat} {s t : Schema} {v : Value} (stops : Stops name schemas i s)
    (fits : List.Forall₂ Conforms schemas stack) (found : s.field name = .found t) (here : stack[i]? = some v)
    (conforms : Conforms s v) :
    (Overruns name schemas stack ∧ v.child? name = none) ∨
      (¬ Overruns name schemas stack ∧ ∃ part, v.child? name = some part ∧ outward name stack = some part) := by
  cases child : v.child? name with
  | none =>
    obtain ⟨items, n, rfl, rfl, index, short⟩ := conforms.short_of_found found child
    exact .inl ⟨⟨i, t, items, n, stops, here, index, short⟩, rfl⟩
  | some part =>
    refine .inr ⟨?_, part, rfl, ?_⟩
    · rintro ⟨j, element, items, n, other, array, index, short⟩
      obtain ⟨rfl, rfl⟩ := stops.unique other
      obtain rfl : v = .array items := Option.some.inj (here.symm.trans array)
      have missing : items[n]? = none := List.getElem?_eq_none short
      simp [Value.child?, index, missing] at child
    · obtain ⟨inside, same⟩ := List.getElem?_eq_some_iff.mp here
      rw [← stops.outward_drop fits, List.drop_eq_getElem_cons inside, same]
      simp [outward, child]

/-- A walk that stops at an unknown value overruns no list. -/
theorem Stops.not_overruns {i : Nat} (stops : Stops name schemas i .any) : ¬ Overruns name schemas stack := by
  rintro ⟨j, element, items, n, other, -⟩
  obtain ⟨-, same⟩ := stops.unique other
  cases same

theorem innermost_of_fits {scope : Scope} (fits : List.Forall₂ Conforms scope.values stack) :
    ∃ v, stack.head? = some v ∧ Conforms scope.innermost v := by
  obtain ⟨v, here, conforms⟩ := exists_of_fits fits (i := 0) (List.head?_eq_getElem? ▸ scope.head?_values)
  exact ⟨v, by rw [List.head?_eq_getElem?, here], conforms⟩

end

/-! ## Resolving names -/

theorem split_ne_nil (stop : Char → Bool) (cs : List Char) : split stop cs ≠ [] := by
  induction cs with
  | nil => simp [split]
  | cons c r ih =>
    rw [split]
    split
    · simp
    · cases pieces : split stop r with
      | nil => exact absurd pieces ih
      | cons piece others => simp

/-- The three ways in which a name is read. -/
theorem name_cases (name : String) :
    (name = "." ∨ name = "this") ∨ ¬ (name = "." ∨ name = "this") ∧
      ∃ first rest, Scope.segments name = first :: rest ∧ (first = "this" ∨ first ≠ "this") := by
  by_cases direct : name = "." ∨ name = "this"
  · exact .inl direct
  · cases parts : Scope.segments name with
    | nil => exact absurd (List.map_eq_nil_iff.mp parts) (split_ne_nil _ _)
    | cons first rest => exact .inr ⟨direct, first, rest, rfl, em _⟩

section

variable {scope : Scope} {stack : List Value} {name first : String} {rest : List String} {r : Resolution}

theorem resolve_innermost (direct : name = "." ∨ name = "this") :
    scope.resolve name = some ⟨.current 0, scope.innermost⟩ := by
  simp [Scope.resolve, direct]

theorem resolve_this (indirect : ¬ (name = "." ∨ name = "this")) (parts : Scope.segments name = "this" :: rest) :
    scope.resolve name = (Scope.descend? rest scope.innermost).map fun known => ⟨.frame 0 rest, known⟩ := by
  simp only [Scope.resolve, indirect, parts, if_true, if_false]
  cases Scope.descend? rest scope.innermost <;> rfl

theorem resolve_outward (indirect : ¬ (name = "." ∨ name = "this"))
    (parts : Scope.segments name = first :: rest) (other : first ≠ "this") :
    scope.resolve name =
      (Scope.walk first 0 scope.values).bind fun (up, schema, searched) =>
        (Scope.descend? rest schema).map fun known =>
          ⟨if searched then .search up (first :: rest) else .frame up (first :: rest), known⟩ := by
  simp only [Scope.resolve, indirect, parts, other, if_false]
  rcases Scope.walk first 0 scope.values with - | ⟨up, schema, searched⟩
  · rfl
  · simp only [Option.bind_eq_bind, Option.bind_some]
    cases Scope.descend? rest schema <;> rfl

/-- What a name that resolves refers to: the innermost value, a part of it, or a part of a value at which
the walk for its first segment stops, which is fixed or searched for. -/
theorem resolve_cases (resolved : scope.resolve name = some r) :
    (name = "." ∨ name = "this") ∧ r = ⟨.current 0, scope.innermost⟩ ∨
      (∃ rest, ¬ (name = "." ∨ name = "this") ∧ Scope.segments name = "this" :: rest ∧
        Scope.descend? rest scope.innermost = some r.schema ∧ r.lookup = .frame 0 rest) ∨
      ∃ first rest i s, ¬ (name = "." ∨ name = "this") ∧ Scope.segments name = first :: rest ∧
        Stops first scope.values i s ∧
        ((∃ t, s.field first = .found t ∧ Scope.descend? rest t = some r.schema ∧ r.lookup = .frame i (first :: rest)) ∨
          s = .any ∧ Scope.descend? rest .any = some r.schema ∧ r.lookup = .search i (first :: rest)) := by
  rcases name_cases name with direct | ⟨indirect, first, rest, parts, rfl | other⟩
  · exact .inl ⟨direct, Option.some.inj (resolved.symm.trans (resolve_innermost direct))⟩
  · rw [resolve_this indirect parts] at resolved
    obtain ⟨known, reached, rfl⟩ := Option.map_eq_some_iff.mp resolved
    exact .inr (.inl ⟨rest, indirect, parts, reached, rfl⟩)
  · rw [resolve_outward indirect parts other] at resolved
    obtain ⟨⟨up, schema, searched⟩, found, resolved⟩ := Option.bind_eq_some_iff.mp resolved
    obtain ⟨known, reached, rfl⟩ := Option.map_eq_some_iff.mp resolved
    refine .inr (.inr ⟨first, rest, ?_⟩)
    rcases walk_cases first 0 scope.values with ⟨nowhere, _⟩ | ⟨i, s, stops, ⟨t, field, answer⟩ | ⟨unknown, answer⟩⟩
    · simp [nowhere] at found
    · obtain ⟨rfl, rfl, rfl⟩ : i = up ∧ t = schema ∧ false = searched := by simpa [answer] using found
      exact ⟨i, s, indirect, parts, stops, .inl ⟨t, field, reached, rfl⟩⟩
    · obtain ⟨rfl, rfl, rfl⟩ : i = up ∧ .any = schema ∧ true = searched := by simpa [answer] using found
      exact ⟨i, s, indirect, parts, stops, .inr ⟨unknown, reached, rfl⟩⟩

/-- The value that resolving a name picks on a stack. -/
def Scope.pick (scope : Scope) (stack : List Value) (name : String) : Option Value :=
  (scope.resolve name).bind fun r => r.lookup.eval? stack

theorem eval_frame {up : Nat} {v : Value} {path : List String} (here : stack[up]? = some v) :
    (Lookup.frame up path).eval? stack = v.descend? path := by
  simp [Lookup.eval?, here]

theorem eval_search (up : Nat) :
    (Lookup.search up (first :: rest)).eval? stack =
      (outward first (stack.drop up)).bind (Value.descend? rest) := by
  simp [Lookup.eval?, searchFor_eq_outward]

/-- The part of an innermost value is picked by its schema as it is by search. -/
theorem pick_this (fits : List.Forall₂ Conforms scope.values stack) (indirect : ¬ (name = "." ∨ name = "this"))
    (parts : Scope.segments name = "this" :: rest) : scope.pick stack name = plainSearch stack name := by
  obtain ⟨v, top, conforms⟩ := innermost_of_fits fits
  have searched : plainSearch stack name = v.descend? rest := by simp [plainSearch, indirect, parts, top]
  rw [Scope.pick, resolve_this indirect parts, searched]
  cases known : Scope.descend? rest scope.innermost with
  | none => simp [conforms.descend_of_none known]
  | some schema => simpa using eval_frame (by rw [← List.head?_eq_getElem?, top])

/-- What is picked by the walk of a first segment, unless it overruns a list. -/
theorem pick_outward (fits : List.Forall₂ Conforms scope.values stack) (indirect : ¬ (name = "." ∨ name = "this"))
    (parts : Scope.segments name = first :: rest) (other : first ≠ "this") :
    (Overruns first scope.values stack ∧ scope.pick stack name = none) ∨
      (¬ Overruns first scope.values stack ∧
        scope.pick stack name = (outward first stack).bind (Value.descend? rest)) := by
  rw [Scope.pick, resolve_outward indirect parts other]
  rcases walk_cases first 0 scope.values with ⟨nowhere, absent⟩ | ⟨i, s, stops, ⟨t, found, answer⟩ | ⟨rfl, answer⟩⟩
  · have nothing : outward first stack = none := outward_of_missing (child_of_all_absent fits absent)
    refine .inr ⟨?_, by simp [nowhere, nothing]⟩
    rintro ⟨i, element, items, n, stops, -⟩
    exact stops.2.1 (absent _ (List.mem_of_getElem? stops.1))
  · obtain ⟨v, here, conforms⟩ := exists_of_fits fits stops.1
    have direct : ∀ part, v.child? first = part →
        (Lookup.frame i (first :: rest)).eval? stack = part.bind (Value.descend? rest) := by
      rintro part rfl
      rw [eval_frame here, Value.descend?_cons]
    rcases stops.found_cases fits found here conforms with ⟨overruns, missing⟩ | ⟨within, part, child, searched⟩
    · refine .inl ⟨overruns, ?_⟩
      cases known : Scope.descend? rest t <;> simp [answer, known, direct _ missing]
    · refine .inr ⟨within, ?_⟩
      cases known : Scope.descend? rest t with
      | none => simp [answer, known, searched, (conforms.child_of_found found child).descend_of_none known]
      | some schema => simp [answer, known, searched, direct _ child]
  · refine .inr ⟨stops.not_overruns, ?_⟩
    cases known : Scope.descend? rest .any with
    | none =>
      have nothing : (outward first stack).bind (Value.descend? rest) = none :=
        Option.bind_eq_none_iff.mpr fun part _ => Conforms.any.descend_of_none known
      simp [answer, known, nothing]
    | some schema => simp [answer, known, eval_search, stops.outward_drop fits]

/-- An index that overruns a list picks nothing. -/
theorem pick_of_overruns (fits : List.Forall₂ Conforms scope.values stack)
    (overruns : Overruns (firstSegment name) scope.values stack) : scope.pick stack name = none := by
  obtain ⟨_, _, _, n, _, _, index, _⟩ := id overruns
  have point : index? (firstSegment ".").toList = none := by decide
  have this : index? (firstSegment "this").toList = none := by decide
  rcases name_cases name with (rfl | rfl) | ⟨indirect, first, rest, parts, rfl | other⟩
  · exact absurd (point.symm.trans index) nofun
  · exact absurd (this.symm.trans index) nofun
  · have same : firstSegment name = firstSegment "this" := by rw [firstSegment, parts]; rfl
    rw [same, this] at index
    cases index
  · rw [firstSegment, parts, List.headD_cons] at overruns
    rcases pick_outward fits indirect parts other with ⟨_, nothing⟩ | ⟨within, _⟩
    · exact nothing
    · exact absurd overruns within

theorem pick_eq_plainSearch (fits : List.Forall₂ Conforms scope.values stack)
    (within : ¬ Overruns (firstSegment name) scope.values stack) :
    scope.pick stack name = plainSearch stack name := by
  rcases name_cases name with direct | ⟨indirect, first, rest, parts, rfl | other⟩
  · rw [Scope.pick, resolve_innermost direct]
    simp [plainSearch, direct, Lookup.eval?, List.head?_eq_getElem?]
  · exact pick_this fits indirect parts
  · rw [firstSegment, parts, List.headD_cons] at within
    rcases pick_outward fits indirect parts other with ⟨overruns, _⟩ | ⟨_, same⟩
    · exact absurd overruns within
    · rw [same]
      simp [plainSearch, indirect, parts, other]

/-- What is picked has the shape that is known of it. -/
theorem conforms_of_pick (fits : List.Forall₂ Conforms scope.values stack) (resolved : scope.resolve name = some r)
    {v : Value} (picked : r.lookup.eval? stack = some v) : Conforms r.schema v := by
  rcases resolve_cases resolved with ⟨_, rfl⟩ | ⟨rest, _, _, known, frame⟩ |
    ⟨first, rest, i, s, _, _, stops, ⟨t, field, known, frame⟩ | ⟨rfl, known, search⟩⟩
  · obtain ⟨top, here, conforms⟩ := innermost_of_fits fits
    obtain rfl : top = v := by simpa [Lookup.eval?, ← List.head?_eq_getElem?, here] using picked
    exact conforms
  · obtain ⟨top, here, conforms⟩ := innermost_of_fits fits
    rw [frame, eval_frame (by rw [← List.head?_eq_getElem?, here])] at picked
    exact conforms.descend_of_some known picked
  · obtain ⟨u, here, conforms⟩ := exists_of_fits fits stops.1
    rw [frame, eval_frame here, Value.descend?_cons] at picked
    obtain ⟨part, child, reached⟩ := Option.bind_eq_some_iff.mp picked
    exact (conforms.child_of_found field child).descend_of_some known reached
  · rw [search, eval_search] at picked
    obtain ⟨part, _, reached⟩ := Option.bind_eq_some_iff.mp picked
    exact Conforms.any.descend_of_some known reached

/-- A name that resolves picks what a search finds, and that has the shape that is known of it; for a name
that does not resolve a search finds nothing. Only an index that overruns the list at which resolution
stops picks nothing, whatever a search finds further out. -/
theorem resolve_agrees_with_search (scope : Scope) (stack : List Value) (name : String)
    (fits : List.Forall₂ Conforms scope.values stack) :
    (∀ r, scope.resolve name = some r →
      (¬ Overruns (firstSegment name) scope.values stack → r.lookup.eval? stack = plainSearch stack name) ∧
      (Overruns (firstSegment name) scope.values stack → r.lookup.eval? stack = none) ∧
      ∀ v, r.lookup.eval? stack = some v → Conforms r.schema v) ∧
    (scope.resolve name = none → ¬ Overruns (firstSegment name) scope.values stack →
      plainSearch stack name = none) := by
  refine ⟨fun r resolved => ⟨fun within => ?_, fun overruns => ?_, fun v picked => ?_⟩, fun unresolved within => ?_⟩
  · simpa [Scope.pick, resolved] using pick_eq_plainSearch fits within
  · simpa [Scope.pick, resolved] using pick_of_overruns fits overruns
  · exact conforms_of_pick fits resolved picked
  · simpa [Scope.pick, unresolved] using (pick_eq_plainSearch fits within).symm

end

/-- A place inside the items of a list of lists; a field of the model is named like an index. -/
def rowScope : Scope :=
  { model := .object [("0", .scalar), ("rows", .list (.list .scalar))], frames := [.value (.list .scalar)] }

/-- A row without items, and the model. -/
def rowStack : List Value := [.array [], .object [("0", .text "zero"), ("rows", .array [.array []])]]

theorem rowStack_fits : List.Forall₂ Conforms rowScope.values rowStack := by
  have rows : Conforms (.list (.list .scalar)) (.array [.array []]) := .list (by simpa using Conforms.list (by simp))
  have model : Conforms (.object [("0", .scalar), ("rows", .list (.list .scalar))])
      (.object [("0", .text "zero"), ("rows", .array [.array []])]) := by
    refine .object (by simp [Dictionary.keys]) fun name schema v known here => ?_
    by_cases zero : name = "0"
    · obtain ⟨rfl, rfl⟩ : .scalar = schema ∧ .text "zero" = v := by simp_all [Dictionary.find?]
      exact .text
    · obtain ⟨-, rfl⟩ : name = "rows" ∧ .list (.list .scalar) = schema := by simpa [Dictionary.find?, zero] using known
      obtain ⟨-, rfl⟩ : name = "rows" ∧ .array [.array []] = v := by simpa [Dictionary.find?, zero] using here
      exact rows
  exact .cons (.list (by simp)) (.cons model .nil)

/-- The walk for the index stops at the row, and finds nothing there. -/
theorem resolve_in_empty_row :
    List.Forall₂ Conforms rowScope.values rowStack ∧ Overruns (firstSegment "0") rowScope.values rowStack ∧
      (Lookup.frame 0 ["0"]).eval? rowStack = none := by
  have overruns : Overruns (firstSegment "0") rowScope.values rowStack :=
    ⟨0, .scalar, [], 0, ⟨rfl, nofun, by simp⟩, rfl, by decide, by decide⟩
  exact ⟨rowStack_fits, overruns, ((resolve_agrees_with_search rowScope rowStack "0" rowStack_fits).1 _ rfl).2.1 overruns⟩

/-- A search goes on beyond the row to the model, resolution does not. -/
theorem resolve_disagrees_beyond_list :
    ¬ ∀ (scope : Scope) (stack : List Value) (name : String), List.Forall₂ Conforms scope.values stack →
      ValidReference name →
        (∀ r, scope.resolve name = some r → r.lookup.eval? stack = plainSearch stack name ∧
          ∀ v, plainSearch stack name = some v → Conforms r.schema v) ∧
        (scope.resolve name = none → plainSearch stack name = none) := by
  intro agrees
  have same := ((agrees rowScope rowStack "0" rowStack_fits (by decide)).1 ⟨.frame 0 ["0"], .scalar⟩ rfl).1
  have found : plainSearch rowStack "0" = some (.text "zero") := rfl
  rw [found] at same
  cases same

end Mustache

import Mustache.Lookup
import Mustache.Scope

/-!
# Conformance

Which values have the shape that a schema describes. What a schema knows of a part holds of the part of
every such value (`Conforms.child_of_found`, `Conforms.child_of_absent`), and so does what it knows of
the end of a path. A known part is there, but for the items of a list, whose number no schema tells.
-/

namespace Mustache
open Text

/-- A value has the shape that a schema describes; an object has the fields of its schema and no others. -/
inductive Conforms : Schema → Value → Prop where
  | any {v : Value} : Conforms .any v
  | bool {b : Bool} : Conforms .bool (.boolean b)
  | number {n : Number} : Conforms .scalar (.number n)
  | text {content : String} : Conforms .scalar (.text content)
  | list {element : Schema} {items : List Value} (each : ∀ item ∈ items, Conforms element item) :
    Conforms (.list element) (.array items)
  | object {fields : List (String × Schema)} {entries : List (String × Value)}
    (names : ∀ name, name ∈ Dictionary.keys entries ↔ name ∈ Dictionary.keys fields)
    (each : ∀ name schema v, Dictionary.find? name fields = some schema →
      Dictionary.find? name entries = some v → Conforms schema v) :
    Conforms (.object fields) (.object entries)

/-! ## The parts of values -/

namespace Schema

theorem field_list (element : Schema) (name : String) :
    field name (.list element) = .found element ∧ (index? name.toList).isSome ∨
      field name (.list element) = .absent ∧ index? name.toList = none := by
  cases index : index? name.toList <;> simp [field, index]

theorem field_eq_unknown_iff {s : Schema} {name : String} : s.field name = .unknown ↔ s = .any := by
  cases s with
  | any => simp [field]
  | list element => rcases field_list element name with ⟨known, _⟩ | ⟨known, _⟩ <;> simp [known]
  | object fields => cases known : Dictionary.find? name fields <;> simp [field, known]
  | _ => simp [field]

end Schema

theorem Scope.descend?_cons (name : String) (path : List String) (s : Schema) :
    Scope.descend? (name :: path) s =
      match s.field name with
      | .found t => Scope.descend? path t
      | .unknown => Scope.descend? path .any
      | .absent => none := by
  simp only [Scope.descend?, List.foldlM_cons]
  cases s.field name <;> rfl

theorem Value.descend?_cons (name : String) (path : List String) (v : Value) :
    v.descend? (name :: path) = (v.child? name).bind (Value.descend? path) := by
  simp only [Value.descend?, List.foldlM_cons]
  rfl

namespace Conforms

variable {s t : Schema} {v w : Value} {name : String}

/-- A part that is known to be absent is not there. -/
theorem child_of_absent (conforms : Conforms s v) (absent : s.field name = .absent) : v.child? name = none := by
  cases conforms with
  | any => simp [Schema.field] at absent
  | @list element items each =>
    rcases Schema.field_list element name with ⟨known, _⟩ | ⟨_, noIndex⟩
    · simp [known] at absent
    · simp [Value.child?, noIndex]
  | @object fields entries names each =>
    have noField : Dictionary.find? name fields = none := by
      cases known : Dictionary.find? name fields with
      | none => rfl
      | some _ => simp [Schema.field, known] at absent
    rw [Dictionary.find?_eq_none_iff, ← names, ← Dictionary.find?_eq_none_iff] at noField
    simpa [Value.child?] using noField
  | _ => rfl

/-- A part has the shape that is known of it. -/
theorem child_of_found (conforms : Conforms s v) (found : s.field name = .found t)
    (child : v.child? name = some w) : Conforms t w := by
  cases conforms with
  | @list element items each =>
    rcases Schema.field_list element name with ⟨known, _⟩ | ⟨known, _⟩
    · obtain rfl : element = t := by simpa [known] using found
      obtain ⟨n, _, item⟩ := Option.bind_eq_some_iff.mp child
      exact each w (List.mem_of_getElem? item)
    · simp [known] at found
  | @object fields entries names each =>
    cases known : Dictionary.find? name fields with
    | none => simp [Schema.field, known] at found
    | some schema =>
      obtain rfl : schema = t := by simpa [Schema.field, known] using found
      exact each name schema w known child
  | _ => simp [Schema.field] at found

/-- What is known to be there is missing only where an index goes beyond the items of a list. -/
theorem short_of_found (conforms : Conforms s v) (found : s.field name = .found t)
    (missing : v.child? name = none) :
    ∃ items n, s = .list t ∧ v = .array items ∧ index? name.toList = some n ∧ items.length ≤ n := by
  cases conforms with
  | @list element items each =>
    rcases Schema.field_list element name with ⟨known, index⟩ | ⟨known, _⟩
    · obtain rfl : element = t := by simpa [known] using found
      obtain ⟨n, number⟩ := Option.isSome_iff_exists.mp index
      exact ⟨items, n, rfl, rfl, number, by simpa [Value.child?, number] using missing⟩
    · simp [known] at found
  | @object fields entries names each =>
    have absent : Dictionary.find? name fields = none := by
      rw [Dictionary.find?_eq_none_iff, ← names, ← Dictionary.find?_eq_none_iff]
      exact missing
    simp [Schema.field, absent] at found
  | _ => simp [Schema.field] at found

/-! ## Paths -/

/-- A path that is known to lead nowhere leads nowhere. -/
theorem descend_of_none {path : List String} (conforms : Conforms s v) (nowhere : Scope.descend? path s = none) :
    v.descend? path = none := by
  induction path generalizing s v with
  | nil => simp [Scope.descend?] at nowhere
  | cons name path ih =>
    rw [Value.descend?_cons, Option.bind_eq_none_iff]
    intro w child
    rw [Scope.descend?_cons] at nowhere
    cases known : s.field name with
    | found t => exact ih (conforms.child_of_found known child) (by simpa [known] using nowhere)
    | unknown => exact ih .any (by simpa [known] using nowhere)
    | absent => simp [conforms.child_of_absent known] at child

/-- The end of a path has the shape that is known of it. -/
theorem descend_of_some {path : List String} (conforms : Conforms s v) (known : Scope.descend? path s = some t)
    (reached : v.descend? path = some w) : Conforms t w := by
  induction path generalizing s v with
  | nil =>
    obtain rfl : s = t := by simpa [Scope.descend?] using known
    obtain rfl : v = w := by simpa [Value.descend?] using reached
    exact conforms
  | cons name path ih =>
    rw [Value.descend?_cons] at reached
    obtain ⟨part, child, rest⟩ := Option.bind_eq_some_iff.mp reached
    rw [Scope.descend?_cons] at known
    cases field : s.field name with
    | found u => exact ih (conforms.child_of_found field child) (by simpa [field] using known) rest
    | unknown => exact ih .any (by simpa [field] using known) rest
    | absent => simp [field] at known

end Conforms
end Mustache

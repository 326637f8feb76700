import Mathlib.Order.Bounds.Lattice
import Mustache.Proofs.Conformance

/-!
# Merged and inferred schemas

Schemas are ordered by how much they leave open: one is below another that is the same with some of its parts
replaced by `any`. Merging two schemas yields the least one above both (`Schema.merge_is_join`), so that the schema of the
items of a list depends on which items there are, and on neither their order nor their number. A value that has the
shape of a schema has that of every schema above it (`Conforms.above`), hence every value has the shape that is
inferred from it, and keeps it when that is merged with others (`infer_is_sound`).
-/

namespace Mustache
open Text

namespace Schema

/-! ## The order -/

mutual
/-- The second schema is the first one with some of its parts replaced by `any`. -/
inductive Below : Schema → Schema → Prop where
  | any {s : Schema} : Below s .any
  | bool : Below .bool .bool
  | scalar : Below .scalar .scalar
  | list {a b : Schema} (element : Below a b) : Below (.list a) (.list b)
  | object {a b : List (String × Schema)} (fields : BelowFields a b) : Below (.object a) (.object b)

inductive BelowFields : List (String × Schema) → List (String × Schema) → Prop where
  | nil : BelowFields [] []
  | cons {name : String} {a b : Schema} {r s : List (String × Schema)} (first : Below a b) (others : BelowFields r s) :
    BelowFields ((name, a) :: r) ((name, b) :: s)
end

mutual
theorem Below.refl : (s : Schema) → Below s s
  | .any => .any
  | .bool => .bool
  | .scalar => .scalar
  | .list element => .list (.refl element)
  | .object fields => .object (.refl fields)

theorem BelowFields.refl : (fields : List (String × Schema)) → BelowFields fields fields
  | [] => .nil
  | (_, s) :: r => .cons (.refl s) (.refl r)
end

mutual
theorem Below.trans {s t u : Schema} : Below s t → Below t u → Below s u
  | _, .any => .any
  | .bool, .bool => .bool
  | .scalar, .scalar => .scalar
  | .list x, .list y => .list (x.trans y)
  | .object x, .object y => .object (x.trans y)

theorem BelowFields.trans {a b c : List (String × Schema)} : BelowFields a b → BelowFields b c → BelowFields a c
  | .nil, .nil => .nil
  | .cons x r, .cons y s => .cons (x.trans y) (r.trans s)
end

mutual
theorem Below.antisymm {s t : Schema} : Below s t → Below t s → s = t
  | .any, .any => rfl
  | .bool, .bool => rfl
  | .scalar, .scalar => rfl
  | .list x, .list y => congrArg list (x.antisymm y)
  | .object x, .object y => congrArg object (x.antisymm y)

theorem BelowFields.antisymm {a b : List (String × Schema)} : BelowFields a b → BelowFields b a → a = b
  | .nil, .nil => rfl
  | .cons x r, .cons y s => by rw [x.antisymm y, r.antisymm s]
end

instance : PartialOrder Schema where
  le := Below
  le_refl := .refl
  le_trans _ _ _ := .trans
  le_antisymm _ _ below above := below.antisymm above

namespace BelowFields

variable {a b : List (String × Schema)}

theorem keys_eq (below : BelowFields a b) : Dictionary.keys a = Dictionary.keys b := by
  induction a generalizing b with
  | nil =>
    cases below
    rfl
  | cons entry r ih =>
    cases below with
    | cons _ others => exact congrArg (_ :: ·) (ih others)

/-- Every field is below the field of the same name. -/
theorem find? {name : String} {t : Schema} (below : BelowFields a b) (found : Dictionary.find? name b = some t) :
    ∃ s, Dictionary.find? name a = some s ∧ s ≤ t := by
  induction a generalizing b with
  | nil =>
    cases below
    cases found
  | cons entry r ih =>
    cases below with
    | @cons other s _ _ _ first others =>
      by_cases same : name = other
      · obtain rfl : _ = t := by simpa [Dictionary.find?, same] using found
        exact ⟨s, by simp [Dictionary.find?, same], first⟩
      · obtain ⟨s', later, below⟩ := ih others (by simpa [Dictionary.find?, same] using found)
        exact ⟨s', by simpa [Dictionary.find?, same] using later, below⟩

end BelowFields

/-! ## Merging -/

/-- Merging replaces nothing but parts of both schemas by `any`. -/
theorem below_merge (a b : Schema) : a ≤ merge a b ∧ b ≤ merge a b := by
  induction a, b using merge.induct _ fun a b => Dictionary.keys a = Dictionary.keys b →
    BelowFields a (mergeFields a b) ∧ BelowFields b (mergeFields a b) with
  | case1 => exact ⟨.bool, .bool⟩
  | case2 => exact ⟨.scalar, .scalar⟩
  | case3 a b ih => exact ⟨.list ih.1, .list ih.2⟩
  | case4 a b same ih =>
    rw [merge, if_pos same]
    exact ⟨.object (ih same).1, .object (ih same).2⟩
  | case5 a b different =>
    rw [merge, if_neg different]
    exact ⟨.any, .any⟩
  | case6 a b no_bool no_scalar no_list no_object =>
    have forgotten : merge a b = .any := by rw [merge] <;> assumption
    rw [forgotten]
    exact ⟨.any, .any⟩
  | case7 name a r other b s first others same =>
    obtain ⟨rfl, later⟩ : name = other ∧ Dictionary.keys r = Dictionary.keys s := by simpa [Dictionary.keys] using same
    exact ⟨.cons first.1 (others later).1, .cons first.2 (others later).2⟩
  | case8 a b unpaired same =>
    cases a with
    | nil =>
      obtain rfl : b = [] := List.map_eq_nil_iff.mp same.symm
      exact ⟨.nil, .nil⟩
    | cons entry r =>
      obtain ⟨entry', s, rfl, _⟩ := List.map_eq_cons_iff.mp same.symm
      exact (unpaired _ _ _ _ _ _ rfl rfl).elim

mutual
/-- Merging replaces no more parts than a schema above both leaves open. -/
theorem Below.merge {a b c : Schema} : Below a c → Below b c → Below (merge a b) c
  | .any, _ => .any
  | .bool, .bool => .bool
  | .scalar, .scalar => .scalar
  | .list x, .list y => .list (x.merge y)
  | .object x, .object y => by
    rw [Schema.merge, if_pos (x.keys_eq.trans y.keys_eq.symm)]
    exact .object (x.mergeFields y)

theorem BelowFields.mergeFields {a b c : List (String × Schema)} :
    BelowFields a c → BelowFields b c → BelowFields (mergeFields a b) c
  | .nil, .nil => .nil
  | .cons x r, .cons y s => .cons (x.merge y) (r.mergeFields s)
end

instance : SemilatticeSup Schema where
  sup := merge
  le_sup_left a b := (below_merge a b).1
  le_sup_right a b := (below_merge a b).2
  sup_le _ _ _ := .merge

instance : OrderTop Schema where
  top := .any
  le_top _ := .any

theorem merge_le_iff {a b bound : Schema} : merge a b ≤ bound ↔ a ≤ bound ∧ b ≤ bound := sup_le_iff

section

variable {schemas others : List Schema} {s bound : Schema}

theorem mergeAll_le_iff (filled : schemas ≠ []) : mergeAll schemas ≤ bound ↔ ∀ s ∈ schemas, s ≤ bound := by
  obtain ⟨first, rest, rfl⟩ := List.exists_cons_of_ne_nil filled
  rw [mergeAll, List.forall_mem_cons]
  induction rest generalizing first with
  | nil => simp
  | cons s r ih => rw [List.foldl_cons, ih _ (List.cons_ne_nil _ _), merge_le_iff, List.forall_mem_cons, and_assoc]

theorem le_mergeAll (member : s ∈ schemas) : s ≤ mergeAll schemas :=
  (mergeAll_le_iff (List.ne_nil_of_mem member)).mp le_rfl s member

/-- Neither the order nor the number of schemas counts. -/
theorem mergeAll_congr (same : ∀ s, s ∈ schemas ↔ s ∈ others) : mergeAll schemas = mergeAll others := by
  cases schemas with
  | nil =>
    obtain rfl : others = [] := List.eq_nil_iff_forall_not_mem.mpr fun s member => List.not_mem_nil ((same s).mpr member)
    rfl
  | cons first rest =>
    have filled : others ≠ [] := List.ne_nil_of_mem ((same first).mp List.mem_cons_self)
    refine eq_of_forall_ge_iff fun bound => ?_
    rw [mergeAll_le_iff (List.cons_ne_nil _ _), mergeAll_le_iff filled]
    simp only [same]

/-- Schemas in a row merge to a schema, two neighbours at a time and grouped in any way. -/
inductive MergesTo : List Schema → Schema → Prop where
  | one {s : Schema} : MergesTo [s] s
  | both {a b : List Schema} {s t : Schema} (left : MergesTo a s) (right : MergesTo b t) : MergesTo (a ++ b) (merge s t)

namespace MergesTo

theorem ne_nil (merges : MergesTo schemas s) : schemas ≠ [] := by
  induction merges with
  | one => exact List.cons_ne_nil _ _
  | both _ _ left _ => exact List.append_ne_nil_of_left_ne_nil left _

theorem le_iff (merges : MergesTo schemas s) : s ≤ bound ↔ ∀ t ∈ schemas, t ≤ bound := by
  induction merges with
  | one => rw [List.forall_mem_singleton]
  | both _ _ left right => rw [List.forall_mem_append, merge_le_iff, left, right]

theorem eq_mergeAll (merges : MergesTo schemas s) : s = mergeAll schemas :=
  eq_of_forall_ge_iff fun _ => merges.le_iff.trans (mergeAll_le_iff merges.ne_nil).symm

end MergesTo

end

/-! ## Inferring -/

theorem inferItems_eq_map (items : List Value) : inferItems items = items.map infer := by
  induction items with
  | nil => rfl
  | cons item r ih => rw [inferItems, ih, List.map_cons]

theorem inferFields_eq_mapValues (fields : List (String × Value)) :
    inferFields fields = Dictionary.mapValues infer fields := by
  induction fields with
  | nil => rfl
  | cons field r ih =>
    rw [inferFields, ih]
    rfl

theorem infer_array (items : List Value) : infer (.array items) = .list (mergeAll (items.map infer)) := by
  rw [infer, inferItems_eq_map]

/-- Merging joins schemas: it yields the least schema above both. Hence lists of the same items have one schema, however
often and in whatever order the items come, and whichever neighbours are merged first. -/
theorem merge_is_join :
    (∀ a b, merge a b = merge b a) ∧ (∀ a b c, merge (merge a b) c = merge a (merge b c)) ∧ (∀ a, merge a a = a) ∧
      (∀ a, merge a .any = .any ∧ merge .any a = .any) ∧ (∀ a b, IsLUB {a, b} (merge a b)) ∧
      ∀ items items' : List Value, (∀ v, v ∈ items ↔ v ∈ items') →
        infer (.array items') = infer (.array items) ∧
          ∀ s, MergesTo (items'.map infer) s → infer (.array items) = .list s := by
  refine ⟨sup_comm, sup_assoc, sup_idem, fun a => ⟨sup_top_eq a, top_sup_eq a⟩, fun _ _ => isLUB_pair, ?_⟩
  intro items items' same
  have one_schema : mergeAll (items.map infer) = mergeAll (items'.map infer) := mergeAll_congr (by simp [same])
  refine ⟨?_, fun s merges => ?_⟩
  · rw [infer_array, infer_array, one_schema]
  · rw [infer_array, one_schema, merges.eq_mergeAll]

/-- Rows of which one is empty, in another order and one of them twice, with the last two merged first. -/
theorem rows_of_one_schema :
    infer (.array [.array [.boolean true], .array [], .array [.null], .array []]) =
      .list (merge (infer (.array [.boolean true]))
        (merge (infer (.array [])) (merge (infer (.array [.null])) (infer (.array []))))) ∧
    infer (.array [.array [], .array [.null], .array [.boolean true]]) =
      .list (merge (infer (.array [.boolean true]))
        (merge (infer (.array [])) (merge (infer (.array [.null])) (infer (.array []))))) := by
  have same : ∀ v, v ∈ [Value.array [], .array [.null], .array [.boolean true]] ↔
      v ∈ [Value.array [.boolean true], .array [], .array [.null], .array []] := by
    intro v
    simp only [List.mem_cons, List.not_mem_nil, or_false]
    grind
  obtain ⟨again, merged⟩ := merge_is_join.2.2.2.2.2 _ _ same
  have grouped := merged _ (.both (a := [_]) .one (.both (a := [_]) .one (.both (a := [_]) (b := [_]) .one .one)))
  exact ⟨again.trans grouped, grouped⟩

end Schema

/-! ## Shapes of values -/

/-- A value has the shape of every schema above one that describes it. -/
theorem Conforms.above {s t : Schema} {v : Value} (conforms : Conforms s v) (below : s ≤ t) : Conforms t v := by
  induction conforms generalizing t with
  | any =>
    cases below
    exact .any
  | bool =>
    cases below with
    | any => exact .any
    | bool => exact .bool
  | number =>
    cases below with
    | any => exact .any
    | scalar => exact .number
  | text =>
    cases below with
    | any => exact .any
    | scalar => exact .text
  | list each ih =>
    cases below with
    | any => exact .any
    | list element => exact .list fun item member => ih item member element
  | object names each ih =>
    cases below with
    | any => exact .any
    | object fields =>
      refine .object (fun name => ?_) fun name schema w known found => ?_
      · rw [names, fields.keys_eq]
      · obtain ⟨s, field, below⟩ := fields.find? known
        exact ih name s w field found below

mutual
theorem infer_conforms : (v : Value) → Conforms (Schema.infer v) v
  | .null => .any
  | .boolean _ => .bool
  | .number _ => .number
  | .text _ => .text
  | .array items => by
    rw [Schema.infer_array]
    refine .list fun item member => ?_
    exact (inferItems_conforms items item member).above (Schema.le_mergeAll (List.mem_map_of_mem member))
  | .object fields => by
    rw [Schema.infer, Schema.inferFields_eq_mapValues]
    refine .object (fun name => ?_) fun name schema v known found => ?_
    · simp [Dictionary.keys, Dictionary.mapValues]
    · rw [Dictionary.find?_mapValues, found] at known
      obtain rfl : Schema.infer v = schema := Option.some.inj known
      exact inferFields_conforms fields (name, v) (Dictionary.mem_of_find? found)

theorem inferItems_conforms : (items : List Value) → ∀ item ∈ items, Conforms (Schema.infer item) item
  | [] => List.forall_mem_nil _
  | item :: r => List.forall_mem_cons.mpr ⟨infer_conforms item, inferItems_conforms r⟩

theorem inferFields_conforms : (fields : List (String × Value)) → ∀ field ∈ fields, Conforms (Schema.infer field.2) field.2
  | [] => List.forall_mem_nil _
  | (_, v) :: r => List.forall_mem_cons.mpr ⟨infer_conforms v, inferFields_conforms r⟩
end

/-- Every value has the shape that is inferred from it, and a value that has the shape of a schema still has it when the
schema is merged with another. -/
theorem infer_is_sound :
    (∀ v, Conforms (Schema.infer v) v) ∧
      ∀ a b v, Conforms a v → Conforms (Schema.merge a b) v ∧ Conforms (Schema.merge b a) v := by
  refine ⟨infer_conforms, fun a b v conforms => ⟨?_, ?_⟩⟩
  · exact conforms.above (Schema.below_merge a b).1
  · exact conforms.above (Schema.below_merge b a).2

/-- Two records that differ in the shape of one field. -/
def records : Value := .array [.object [("id", .text "x"), ("on", .boolean true)], .object [("id", .text "y"), ("on", .null)]]

theorem records_conform :
    Schema.infer records = .list (.object [("id", .scalar), ("on", .any)]) ∧ Conforms (Schema.infer records) records ∧
      Conforms (Schema.merge (Schema.infer records) (.list (.object [("id", .scalar)]))) records ∧
      Conforms (Schema.merge (.list (.object [("id", .scalar)])) (Schema.infer records)) records := by
  have shape : Conforms (Schema.infer records) records := infer_is_sound.1 records
  exact ⟨by cbv, shape, infer_is_sound.2 _ _ _ shape⟩

end Mustache

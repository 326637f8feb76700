/-!
# Dictionaries

Entries in the order of their keys, at most one for a key. Inserting replaces: the key then has
the new value (`find?_insert_self`) and every other key its old one (`find?_insert_of_ne`). The
lookup laws hold for entries in any order; what is inserted into ordered entries keeps them ordered
(`Ordered.insert`).
-/

namespace Mustache.Dictionary

variable {α : Type}

/-- The first entry of a key. -/
def find? (key : String) : List (String × α) → Option α
  | [] => none
  | (k, v) :: r => if key = k then some v else find? key r

/-- Adds an entry at its place in the order of keys, or replaces the entry of the same key. -/
def insert (key : String) (value : α) : List (String × α) → List (String × α)
  | [] => [(key, value)]
  | (k, v) :: r =>
    if key = k then (key, value) :: r
    else if key < k then (key, value) :: (k, v) :: r
    else (k, v) :: insert key value r

def erase (key : String) (entries : List (String × α)) : List (String × α) := entries.filter (·.1 ≠ key)

/-- Adds entries one after another; of two with one key the later stays. -/
def insertAll (added entries : List (String × α)) : List (String × α) :=
  added.foldl (fun d entry => insert entry.1 entry.2 d) entries

/-- The dictionary of some entries; of two with one key the later stays. -/
def ofList (entries : List (String × α)) : List (String × α) := insertAll entries []

def keys (entries : List (String × α)) : List String := entries.map (·.1)

theorem find?_eq_none_iff {key : String} {entries : List (String × α)} :
    find? key entries = none ↔ key ∉ keys entries := by
  induction entries with
  | nil => simp [find?, keys]
  | cons entry r ih =>
    obtain ⟨k, v⟩ := entry
    by_cases same : key = k <;> simp_all [find?, keys]

theorem find?_insert_self (key : String) (value : α) (entries : List (String × α)) :
    find? key (insert key value entries) = some value := by
  induction entries with
  | nil => simp [insert, find?]
  | cons entry r ih =>
    obtain ⟨k, v⟩ := entry
    by_cases same : key = k
    · simp [insert, find?, same]
    · by_cases before : key < k <;> simp [insert, find?, same, before, ih]

theorem find?_insert_of_ne {key other : String} (different : other ≠ key) (value : α)
    (entries : List (String × α)) : find? other (insert key value entries) = find? other entries := by
  induction entries with
  | nil => simp [insert, find?, different]
  | cons entry r ih =>
    obtain ⟨k, v⟩ := entry
    by_cases same : key = k
    · subst same; simp [insert, find?, different]
    · by_cases before : key < k
      · simp [insert, find?, same, before, different]
      · simp [insert, find?, same, before, ih]

theorem find?_erase_self (key : String) (entries : List (String × α)) : find? key (erase key entries) = none := by
  induction entries with
  | nil => rfl
  | cons entry r ih =>
    obtain ⟨k, v⟩ := entry
    by_cases same : k = key
    · simpa [erase, same] using ih
    · simpa [erase, same, find?, Ne.symm same] using ih

theorem find?_erase_of_ne {key other : String} (different : other ≠ key) (entries : List (String × α)) :
    find? other (erase key entries) = find? other entries := by
  induction entries with
  | nil => rfl
  | cons entry r ih =>
    obtain ⟨k, v⟩ := entry
    by_cases same : k = key
    · subst same; simpa [erase, find?, different] using ih
    · by_cases here : other = k <;> simp_all [erase, find?]

theorem find?_append (key : String) (a b : List (String × α)) : find? key (a ++ b) = (find? key a).or (find? key b) := by
  induction a with
  | nil => rfl
  | cons entry r ih =>
    obtain ⟨k, v⟩ := entry
    by_cases same : key = k <;> simp [find?, same, ih]

/-- Of the entries of a key that are added the last counts, and before every other entry. -/
theorem find?_insertAll (key : String) (added entries : List (String × α)) :
    find? key (insertAll added entries) = (find? key added.reverse).or (find? key entries) := by
  induction added generalizing entries with
  | nil => rfl
  | cons entry r ih =>
    obtain ⟨k, v⟩ := entry
    have step : insertAll ((k, v) :: r) entries = insertAll r (insert k v entries) := rfl
    rw [step, ih, List.reverse_cons, find?_append, Option.or_assoc]
    by_cases same : key = k
    · simp [find?, same, find?_insert_self]
    · simp [find?, same, find?_insert_of_ne]

/-! ## Entries -/

section

variable {key : String} {value : α} {entry : String × α} {entries added : List (String × α)}

theorem mem_of_find? (found : find? key entries = some value) : (key, value) ∈ entries := by
  induction entries with
  | nil => cases found
  | cons first r ih =>
    obtain ⟨k, v⟩ := first
    by_cases same : key = k
    · obtain rfl : v = value := by simpa [find?, same] using found
      exact same ▸ List.mem_cons_self
    · exact List.mem_cons_of_mem _ (ih (by simpa [find?, same] using found))

theorem mem_of_mem_insert (member : entry ∈ insert key value entries) : entry = (key, value) ∨ entry ∈ entries := by
  induction entries with
  | nil => simpa [insert] using member
  | cons first r ih =>
    obtain ⟨k, v⟩ := first
    by_cases same : key = k
    · simp only [insert, same, if_true, List.mem_cons] at member ⊢
      exact member.imp_right .inr
    · by_cases before : key < k
      · simpa only [insert, same, before, if_true, if_false, List.mem_cons] using member
      · simp only [insert, same, before, if_false, List.mem_cons] at member ⊢
        rcases member with first | later
        · exact .inr (.inl first)
        · exact (ih later).imp_right .inr

theorem mem_of_mem_insertAll (member : entry ∈ insertAll added entries) : entry ∈ added ∨ entry ∈ entries := by
  induction added generalizing entries with
  | nil => exact .inr member
  | cons first r ih =>
    have further : entry ∈ insertAll r (insert first.1 first.2 entries) := member
    rcases ih further with later | now
    · exact .inl (List.mem_cons_of_mem _ later)
    · rcases mem_of_mem_insert now with rfl | old
      · exact .inl List.mem_cons_self
      · exact .inr old

end

/-! ## Changed values -/

section

variable {β : Type}

def mapValues (f : α → β) (entries : List (String × α)) : List (String × β) :=
  entries.map fun entry => (entry.1, f entry.2)

theorem mapValues_insert (f : α → β) (key : String) (value : α) (entries : List (String × α)) :
    mapValues f (insert key value entries) = insert key (f value) (mapValues f entries) := by
  induction entries with
  | nil => rfl
  | cons entry r ih =>
    obtain ⟨k, v⟩ := entry
    by_cases same : key = k
    · simp [insert, mapValues, same]
    · by_cases before : key < k
      · simp [insert, mapValues, same, before]
      · simp only [mapValues] at ih
        simp [insert, mapValues, same, before, ih]

theorem mapValues_insertAll (f : α → β) (added entries : List (String × α)) :
    mapValues f (insertAll added entries) = insertAll (mapValues f added) (mapValues f entries) := by
  induction added generalizing entries with
  | nil => rfl
  | cons entry r ih =>
    have step : insertAll (entry :: r) entries = insertAll r (insert entry.1 entry.2 entries) := rfl
    rw [step, ih, mapValues_insert]
    rfl

theorem mapValues_erase (f : α → β) (key : String) (entries : List (String × α)) :
    mapValues f (erase key entries) = erase key (mapValues f entries) := by
  rw [erase, mapValues, erase, mapValues, List.filter_map]
  rfl

theorem find?_mapValues (f : α → β) (key : String) (entries : List (String × α)) :
    find? key (mapValues f entries) = (find? key entries).map f := by
  induction entries with
  | nil => rfl
  | cons entry r ih =>
    obtain ⟨k, v⟩ := entry
    by_cases same : key = k
    · simp [find?, mapValues, same]
    · simpa [find?, mapValues, same] using ih

end

/-! ## Order -/

/-- The keys are in order, each of them once. -/
def Ordered (entries : List (String × α)) : Prop := (keys entries).Pairwise (· < ·)

theorem ordered_cons {key : String} {value : α} {entries : List (String × α)} :
    Ordered ((key, value) :: entries) ↔ (∀ other ∈ keys entries, key < other) ∧ Ordered entries :=
  List.pairwise_cons

theorem mem_keys_insert {key other : String} {value : α} {entries : List (String × α)} :
    other ∈ keys (insert key value entries) ↔ other = key ∨ other ∈ keys entries := by
  induction entries with
  | nil => simp [insert, keys]
  | cons entry r ih =>
    obtain ⟨k, v⟩ := entry
    by_cases same : key = k
    · simp [insert, same, keys]
    · by_cases before : key < k
      · simp [insert, same, before, keys]
      · simp only [insert, same, before, if_false, keys, List.map_cons, List.mem_cons] at ih ⊢
        rw [ih, or_left_comm]

theorem Ordered.insert {entries : List (String × α)} (ordered : Ordered entries) (key : String) (value : α) :
    Ordered (insert key value entries) := by
  induction entries with
  | nil => simp [Dictionary.insert, Ordered, keys]
  | cons entry r ih =>
    obtain ⟨k, v⟩ := entry
    obtain ⟨least, rest⟩ := ordered_cons.mp ordered
    by_cases same : key = k
    · subst same
      simpa [Dictionary.insert] using ordered_cons.mpr ⟨least, rest⟩
    · by_cases before : key < k
      · have first : ∀ other ∈ keys ((k, v) :: r), key < other := by
          intro other member
          rcases List.mem_cons.mp member with rfl | later
          · exact before
          · exact String.lt_trans before (least other later)
        simpa only [Dictionary.insert, same, before, if_false, if_true] using ordered_cons.mpr ⟨first, ordered⟩
      · have after : k < key :=
          String.not_le.mp fun back => same (String.le_antisymm back (String.not_lt.mp before))
        have first : ∀ other ∈ keys (Dictionary.insert key value r), k < other := by
          intro other member
          rcases mem_keys_insert.mp member with rfl | later
          · exact after
          · exact least other later
        simpa only [Dictionary.insert, same, before, if_false] using ordered_cons.mpr ⟨first, ih rest⟩

theorem Ordered.insertAll {entries : List (String × α)} (ordered : Ordered entries) (added : List (String × α)) :
    Ordered (insertAll added entries) := by
  induction added generalizing entries with
  | nil => exact ordered
  | cons entry r ih => exact ih (ordered.insert entry.1 entry.2)

theorem Ordered.erase {entries : List (String × α)} (ordered : Ordered entries) (key : String) :
    Ordered (erase key entries) :=
  List.Pairwise.sublist (List.Sublist.map _ List.filter_sublist) ordered

theorem ordered_nil : Ordered ([] : List (String × α)) := List.Pairwise.nil

theorem ordered_ofList (entries : List (String × α)) : Ordered (ofList entries) := ordered_nil.insertAll entries

/-- Where no key comes twice, the first entry of a key is its last. -/
theorem Ordered.find?_reverse {entries : List (String × α)} (ordered : Ordered entries) (key : String) :
    find? key entries.reverse = find? key entries := by
  induction entries with
  | nil => rfl
  | cons entry r ih =>
    obtain ⟨k, v⟩ := entry
    obtain ⟨least, rest⟩ := ordered_cons.mp ordered
    rw [List.reverse_cons, find?_append, ih rest]
    by_cases same : key = k
    · subst same
      have once : find? key r = none := find?_eq_none_iff.mpr fun member => String.lt_irrefl key (least key member)
      simp [find?, once]
    · simp [find?, same]

end Mustache.Dictionary

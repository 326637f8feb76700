import Mathlib
import Mustache.Invocation
import Mustache.Proofs.Reading

/-!
# The grammar of arguments

Arguments are taken one after another, and what is taken so far is a list of keys with their texts
(`foldlM_take_eq_ok`). So arguments are accepted exactly where they are texts under keys of their own
(`ofArguments_eq_ok`), which is the grammar (`Grammatical`); and since a key is there once at most, their order does
not matter (`valueOf?_perm`, `accepts_by_grammar`).
-/

namespace Mustache
open Text

namespace ArgumentKey

theorem ofString?_eq_some_iff {name : String} {key : ArgumentKey} : ofString? name = some key ↔ name = key.text := by
  constructor
  · intro found
    unfold ofString? at found
    split at found <;> cases found <;> rfl
  · rintro rfl
    cases key <;> rfl

theorem text_injective : Function.Injective text := by
  intro a b same
  apply Option.some.inj
  rw [← ofString?_eq_some_iff.mpr (rfl : a.text = a.text), same, ofString?_eq_some_iff]

end ArgumentKey

namespace Invocation

/-! ## The grammar -/

/-- A key occurs, with whatever value. -/
def Occurs (arguments : List Argument) (key : ArgumentKey) : Prop := ∃ a ∈ arguments, a.key = [key.text]

/-- A text is given to a key. -/
def Gives (arguments : List Argument) (key : ArgumentKey) (content : String) : Prop :=
  ⟨[key.text], .text content⟩ ∈ arguments

/-- The arguments of an invocation. -/
structure Grammatical (arguments : List Argument) : Prop where
  keys : ∀ a ∈ arguments, ∃ key : ArgumentKey, a.key = [key.text]
  once : (arguments.map Argument.key).Nodup
  values : ∀ a ∈ arguments, ∃ content, a.value = .text content
  one_template : Xor (Occurs arguments .path) (Occurs arguments .source)
  name_of_source : Occurs arguments .name → Occurs arguments .source

/-- The template that arguments stand for. -/
inductive Stands (arguments : List Argument) : InvocationInput → Prop where
  | path {path} (given : Gives arguments .path path) : Stands arguments (.path path)
  | named {source name} (given : Gives arguments .source source) (called : Gives arguments .name name) :
    Stands arguments (.source source name)
  | unnamed {source} (given : Gives arguments .source source) (uncalled : ¬ Occurs arguments .name) :
    Stands arguments (.source source "inline")

/-- The parts of a text between its commas, trimmed and without those of which nothing is left. -/
def Listed (content : String) (names : List String) : Prop :=
  names = (((content.toList.splitOn ',').map trim).filter (· ≠ [])).map String.ofList

/-- The names of the functions that arguments stand for. -/
inductive Calls (arguments : List Argument) : List String → Prop where
  | listed {content names} (given : Gives arguments .lambdas content) (listed : Listed content names) :
    Calls arguments names
  | none (absent : ¬ Occurs arguments .lambdas) : Calls arguments []

/-! ## Arguments one after another -/

/-- The argument that gives a text to a key. -/
def argument (entry : ArgumentKey × String) : Argument := ⟨[entry.1.text], .text entry.2⟩

theorem argument_injective : Function.Injective argument := by
  rintro ⟨key, content⟩ ⟨key', content'⟩ same
  obtain ⟨names, values⟩ := Argument.mk.inj same
  obtain rfl := ArgumentKey.text_injective (List.cons.inj names).1
  obtain rfl := ArgumentValue.text.inj values
  rfl

section

variable {arguments arguments' : List Argument} {given given' t : Given} {a : Argument} {key : ArgumentKey}
  {content : String} {input : InvocationInput} {invocation : Invocation}

theorem valueOf?_cons (key : ArgumentKey) (entry : ArgumentKey × String) (given : Given) :
    valueOf? key (entry :: given) = if key = entry.1 then some entry.2 else valueOf? key given := by
  rw [valueOf?, List.lookup_cons]
  by_cases same : key = entry.1
  · simp [same]
  · simp [same, beq_eq_false_iff_ne.mpr same, valueOf?]

theorem valueOf?_eq_none_iff : valueOf? key given = none ↔ key ∉ given.map Prod.fst := by
  induction given with
  | nil => simp [valueOf?]
  | cons entry rest ih =>
    rw [valueOf?_cons, List.map_cons, List.mem_cons, not_or, ← ih]
    by_cases same : key = entry.1 <;> simp [same]

/-- A key that is there once has the value that stands by it. -/
theorem valueOf?_eq_some_iff (once : (given.map Prod.fst).Nodup) :
    valueOf? key given = some content ↔ (key, content) ∈ given := by
  induction given with
  | nil => simp [valueOf?]
  | cons entry rest ih =>
    rw [List.map_cons, List.nodup_cons] at once
    rw [valueOf?_cons, List.mem_cons, ← ih once.2]
    by_cases same : key = entry.1
    · have absent : valueOf? key rest = none := valueOf?_eq_none_iff.mpr (same ▸ once.1)
      simp [same ▸ absent, same, Prod.ext_iff, eq_comm]
    · simp [same, Prod.ext_iff]

theorem valueOf?_perm (once : (given.map Prod.fst).Nodup) (moved : given'.Perm given) (key : ArgumentKey) :
    valueOf? key given' = valueOf? key given := by
  have once' := (moved.map Prod.fst).nodup_iff.mpr once
  apply Option.ext
  intro content
  rw [valueOf?_eq_some_iff once', moved.mem_iff, valueOf?_eq_some_iff once]

theorem take_eq_ok : take given a = .ok t ↔
    ∃ entry, a = argument entry ∧ entry.1 ∉ given.map Prod.fst ∧ t = entry :: given := by
  constructor
  · intro taken
    unfold take at taken
    split at taken
    · next name single =>
      split at taken
      · cases taken
      · cases taken
      · next key content known value =>
        split at taken
        · cases taken
        · next first =>
          cases taken
          rw [Option.not_isSome_iff_eq_none, valueOf?_eq_none_iff] at first
          obtain rfl := ArgumentKey.ofString?_eq_some_iff.mp known
          exact ⟨(key, content), by rw [argument, ← single, ← value], first, rfl⟩
    · cases taken
  · rintro ⟨⟨key, content⟩, rfl, first, rfl⟩
    have known : ArgumentKey.ofString? key.text = some key := ArgumentKey.ofString?_eq_some_iff.mpr rfl
    simp [take, argument, known, valueOf?_eq_none_iff.mpr first]

/-- The arguments that are taken are texts for keys that have not been there before. -/
theorem foldlM_take_eq_ok : arguments.foldlM take given = .ok t ↔
    ∃ entries : Given, arguments = entries.map argument ∧ (entries.map Prod.fst).Nodup ∧
      (∀ entry ∈ entries, entry.1 ∉ given.map Prod.fst) ∧ t = entries.reverse ++ given := by
  induction arguments generalizing given with
  | nil =>
    rw [foldlM_nil_eq_ok]
    constructor
    · rintro rfl
      exact ⟨[], rfl, by simp, by simp, rfl⟩
    · rintro ⟨entries, none, -, -, rfl⟩
      rw [List.map_eq_nil_iff.mp none.symm]
      rfl
  | cons a rest ih =>
    rw [foldlM_cons_eq_ok]
    constructor
    · rintro ⟨u, taken, later⟩
      obtain ⟨entry, rfl, first, rfl⟩ := take_eq_ok.mp taken
      obtain ⟨entries, rfl, once, fresh, rfl⟩ := ih.mp later
      refine ⟨entry :: entries, rfl, ?_, List.forall_mem_cons.mpr ⟨first, fun other member => ?_⟩, by simp⟩
      · rw [List.map_cons, List.nodup_cons]
        refine ⟨fun again => ?_, once⟩
        obtain ⟨other, member, same⟩ := List.mem_map.mp again
        exact fresh other member (by simp [same])
      · exact fun before => fresh other member (List.mem_cons_of_mem _ before)
    · rintro ⟨entries, whole, once, fresh, rfl⟩
      obtain ⟨entry, entries, rfl, rfl, rfl⟩ := List.map_eq_cons_iff.mp whole.symm
      obtain ⟨first, others⟩ := List.forall_mem_cons.mp fresh
      rw [List.map_cons, List.nodup_cons] at once
      refine ⟨entry :: given, take_eq_ok.mpr ⟨entry, rfl, first, rfl⟩, ih.mpr ⟨entries, rfl, once.2, ?_, by simp⟩⟩
      intro other member
      rw [List.map_cons, List.mem_cons, not_or]
      exact ⟨fun same => once.1 (same ▸ List.mem_map_of_mem member), others other member⟩

theorem inputOf_eq_ok : inputOf given = .ok input ↔
    (∃ path, valueOf? .path given = some path ∧ valueOf? .source given = none ∧ valueOf? .name given = none ∧
      input = .path path) ∨
    ∃ source, valueOf? .path given = none ∧ valueOf? .source given = some source ∧
      input = .source source ((valueOf? .name given).getD inlineName) := by
  unfold inputOf
  cases valueOf? .path given <;> cases valueOf? .source given <;> cases valueOf? .name given <;> simp [eq_comm]

/-- Arguments are accepted where they are texts under different keys which stand for a template. -/
theorem ofArguments_eq_ok : ofArguments arguments = .ok invocation ↔
    ∃ given : Given, arguments = given.map argument ∧ (given.map Prod.fst).Nodup ∧ inputOf given = .ok invocation.input ∧
      invocation.lambdas = lambdaNames ((valueOf? .lambdas given).getD "") := by
  have kept {given : Given} (once : (given.map Prod.fst).Nodup) (key : ArgumentKey) :
      valueOf? key given.reverse = valueOf? key given := valueOf?_perm once (List.reverse_perm given) key
  unfold ofArguments
  rw [bind_eq_ok]
  constructor
  · rintro ⟨t, taken, made⟩
    obtain ⟨given, rfl, once, -, rfl⟩ := foldlM_take_eq_ok.mp taken
    obtain ⟨input, said, made⟩ := bind_eq_ok.mp made
    cases made
    simp only [List.append_nil, inputOf, kept once] at said ⊢
    exact ⟨given, rfl, once, said, rfl⟩
  · rintro ⟨given, rfl, once, said, called⟩
    refine ⟨given.reverse, foldlM_take_eq_ok.mpr ⟨given, rfl, once, by simp, by simp⟩, bind_eq_ok.mpr ⟨invocation.input, ?_, ?_⟩⟩
    · simpa only [inputOf, kept once] using said
    · simp only [kept once, ← called]
      rfl

/-! ## Acceptance -/

theorem occurs_iff : Occurs (given.map argument) key ↔ valueOf? key given ≠ none := by
  rw [Ne, valueOf?_eq_none_iff, not_not, List.mem_map]
  constructor
  · rintro ⟨a, member, named⟩
    obtain ⟨entry, inside, rfl⟩ := List.mem_map.mp member
    exact ⟨entry, inside, ArgumentKey.text_injective (List.cons.inj named).1⟩
  · rintro ⟨entry, inside, rfl⟩
    exact ⟨argument entry, List.mem_map_of_mem inside, rfl⟩

theorem gives_iff (once : (given.map Prod.fst).Nodup) :
    Gives (given.map argument) key content ↔ valueOf? key given = some content := by
  rw [valueOf?_eq_some_iff once]
  show argument (key, content) ∈ given.map argument ↔ (key, content) ∈ given
  exact List.mem_map_of_injective argument_injective

theorem exists_given (each : ∀ a ∈ arguments, ∃ entry, argument entry = a) :
    ∃ given : Given, given.map argument = arguments := by
  have listed : arguments ∈ Set.range (List.map argument) := by
    rw [Set.range_list_map]
    exact each
  exact listed

theorem exists_input_iff : (∃ input, inputOf given = .ok input) ↔
    Xor (valueOf? .path given ≠ none) (valueOf? .source given ≠ none) ∧
      (valueOf? .name given ≠ none → valueOf? .source given ≠ none) := by
  unfold inputOf
  cases valueOf? .path given <;> cases valueOf? .source given <;> cases valueOf? .name given <;> simp [Xor]

theorem nodup_keys_iff : ((given.map argument).map Argument.key).Nodup ↔ (given.map Prod.fst).Nodup := by
  have single : Function.Injective fun key : ArgumentKey => [key.text] :=
    fun _ _ same => ArgumentKey.text_injective (List.cons.inj same).1
  have keys : (given.map argument).map Argument.key = (given.map Prod.fst).map fun key => [key.text] := by
    rw [List.map_map, List.map_map]
    rfl
  rw [keys, List.nodup_map_iff single]

theorem accepted_iff : (∃ invocation, ofArguments arguments = .ok invocation) ↔ Grammatical arguments := by
  constructor
  · rintro ⟨invocation, accepted⟩
    obtain ⟨given, rfl, once, said, _⟩ := ofArguments_eq_ok.mp accepted
    obtain ⟨one_template, name_of_source⟩ := exists_input_iff.mp ⟨_, said⟩
    refine ⟨fun a member => ?_, nodup_keys_iff.mpr once, fun a member => ?_, ?_, ?_⟩
    · obtain ⟨entry, _, rfl⟩ := List.mem_map.mp member
      exact ⟨entry.1, rfl⟩
    · obtain ⟨entry, _, rfl⟩ := List.mem_map.mp member
      exact ⟨entry.2, rfl⟩
    · rwa [occurs_iff, occurs_iff]
    · rwa [occurs_iff, occurs_iff]
  · rintro ⟨keys, once, values, one_template, name_of_source⟩
    have each : ∀ a ∈ arguments, ∃ entry, argument entry = a := by
      intro a member
      obtain ⟨key, named⟩ := keys a member
      obtain ⟨content, said⟩ := values a member
      exact ⟨(key, content), by rw [argument, ← named, ← said]⟩
    obtain ⟨given, rfl⟩ := exists_given each
    rw [occurs_iff, occurs_iff] at one_template name_of_source
    obtain ⟨input, said⟩ := exists_input_iff.mpr ⟨one_template, name_of_source⟩
    exact ⟨⟨input, _⟩, ofArguments_eq_ok.mpr ⟨given, rfl, nodup_keys_iff.mp once, said, rfl⟩⟩

theorem stands_of_inputOf (once : (given.map Prod.fst).Nodup) (said : inputOf given = .ok input) :
    Stands (given.map argument) input := by
  rcases inputOf_eq_ok.mp said with ⟨path, found, _, _, rfl⟩ | ⟨source, _, found, rfl⟩
  · exact .path ((gives_iff once).mpr found)
  · cases name : valueOf? .name given with
    | none => exact .unnamed ((gives_iff once).mpr found) fun occurs => occurs_iff.mp occurs name
    | some name => exact .named ((gives_iff once).mpr found) ((gives_iff once).mpr ‹_›)

theorem split_eq_splitOnP (stop : Char → Bool) (cs : List Char) : split stop cs = cs.splitOnP stop := by
  induction cs with
  | nil => rfl
  | cons c rest ih => rw [split, List.splitOnP_cons_eq_if_modifyHead, ih]

theorem listed_lambdaNames (content : String) : Listed content (lambdaNames content) := by
  have filled (part : List Char) : (!part.isEmpty) = decide (part ≠ []) := by cases part <;> rfl
  rw [Listed, lambdaNames, split_eq_splitOnP]
  simp only [filled]
  rfl

theorem calls_of_given (once : (given.map Prod.fst).Nodup) :
    Calls (given.map argument) (lambdaNames ((valueOf? .lambdas given).getD "")) := by
  cases found : valueOf? .lambdas given with
  | none => exact .none fun occurs => occurs_iff.mp occurs found
  | some content => exact .listed ((gives_iff once).mpr found) (listed_lambdaNames content)

theorem ofArguments_perm (moved : arguments'.Perm arguments) (accepted : ofArguments arguments = .ok invocation) :
    ofArguments arguments' = .ok invocation := by
  obtain ⟨given, rfl, once, said, called⟩ := ofArguments_eq_ok.mp accepted
  have each : ∀ a ∈ arguments', ∃ entry, argument entry = a := by
    intro a member
    obtain ⟨entry, _, same⟩ := List.mem_map.mp (moved.mem_iff.mp member)
    exact ⟨entry, same⟩
  obtain ⟨given', rfl⟩ := exists_given each
  have moved := (List.map_perm_map_iff argument_injective).mp moved
  refine ofArguments_eq_ok.mpr ⟨given', rfl, (moved.map Prod.fst).nodup_iff.mpr once, ?_, ?_⟩
  · simpa only [inputOf, valueOf?_perm once moved] using said
  · rw [called, valueOf?_perm once moved]

/-- Arguments are accepted exactly by the grammar and in any order, and stand for what they say. -/
theorem accepts_by_grammar (arguments : List Argument) :
    ((∃ invocation, ofArguments arguments = .ok invocation) ↔ Grammatical arguments) ∧
      (∀ invocation, ofArguments arguments = .ok invocation →
        Stands arguments invocation.input ∧ Calls arguments invocation.lambdas) ∧
      ∀ arguments', arguments'.Perm arguments →
        ∀ invocation, ofArguments arguments' = .ok invocation ↔ ofArguments arguments = .ok invocation := by
  refine ⟨accepted_iff, fun invocation accepted => ?_, fun arguments' moved invocation => ?_⟩
  · obtain ⟨given, rfl, once, said, called⟩ := ofArguments_eq_ok.mp accepted
    exact ⟨stands_of_inputOf once said, called ▸ calls_of_given once⟩
  · exact ⟨ofArguments_perm moved.symm, ofArguments_perm moved⟩

end

/-- A source with a name, behind functions of which one has no name. -/
def greetingArguments : List Argument :=
  [⟨["lambdas"], .text " bold,, up"⟩, ⟨["source"], .text "hi"⟩, ⟨["name"], .text "greeting"⟩]

def greeting : Invocation := ⟨.source "hi" "greeting", ["bold", "up"]⟩

theorem greeting_accepted :
    ofArguments greetingArguments = .ok greeting ∧ Grammatical greetingArguments ∧
      Stands greetingArguments greeting.input ∧ Calls greetingArguments greeting.lambdas ∧
        ofArguments greetingArguments.reverse = .ok greeting := by
  have accepted : ofArguments greetingArguments = .ok greeting := by cbv
  obtain ⟨grammar, meaning, order⟩ := accepts_by_grammar greetingArguments
  obtain ⟨stands, calls⟩ := meaning greeting accepted
  exact ⟨accepted, grammar.mp ⟨greeting, accepted⟩, stands, calls,
    (order _ (List.reverse_perm greetingArguments) greeting).mpr accepted⟩

end Invocation
end Mustache

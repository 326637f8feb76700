import Mustache.Proofs.Results

/-!
# Escaped output

Escaping for HTML is a map of characters (`Escaper.htmlText`): it goes through texts that are put together, gives
different texts for different texts, and leaves of the characters with a meaning only an ampersand where an entity
begins. So does rendering, where all that is written is either escaped or has no such characters: with escaping it
comes to the escaped text of what it comes to without (`Renderer.html_is_complete`).
-/

namespace Mustache

/-! ## Entities -/

namespace Escaper

/-- The characters with a meaning in HTML, each with its entity. -/
def entities : List (Char × String) :=
  [('&', "&amp;"), ('<', "&lt;"), ('>', "&gt;"), ('"', "&quot;"), ('\'', "&#x27;")]

/-- What is written for a character: its entity, or itself. -/
def charText (c : Char) : List Char :=
  match entities.find? (·.1 = c) with
  | some entry => entry.2.toList
  | .none => [c]

/-- A text with every character that has a meaning in HTML replaced by its entity. -/
def htmlText (content : String) : String := String.ofList (content.toList.flatMap charText)

/-- A text without characters that have a meaning in HTML. -/
def Harmless (content : String) : Prop := ∀ c ∈ content.toList, c ∉ entities.map (·.1)

theorem entity?_eq (c : Char) : entity? c = (entities.find? (·.1 = c)).map (·.2) := by
  unfold entity?
  split
  case h_6 amp lt gt quot apos =>
    simp [entities, Ne.symm amp, Ne.symm lt, Ne.symm gt, Ne.symm quot, Ne.symm apos]
  all_goals rfl

/-- A character has an entity or stands for itself. -/
theorem charText_cases (c : Char) :
    (∃ entry ∈ entities, entry.1 = c ∧ charText c = entry.2.toList) ∨
      (c ∉ entities.map (·.1) ∧ charText c = [c]) := by
  unfold charText
  cases found : entities.find? (·.1 = c) with
  | some entry =>
    have same : entry.1 = c := by simpa using List.find?_some found
    exact .inl ⟨entry, List.mem_of_find?_eq_some found, same, rfl⟩
  | none =>
    refine .inr ⟨?_, rfl⟩
    intro member
    obtain ⟨entry, inside, same⟩ := List.mem_map.mp member
    exact List.find?_eq_none.mp found entry inside (by simpa using same)

theorem charText_of_not_mem {c : Char} (plain : c ∉ entities.map (·.1)) : charText c = [c] := by
  rcases charText_cases c with ⟨entry, inside, same, _⟩ | ⟨_, itself⟩
  · exact absurd (List.mem_map.mpr ⟨entry, inside, same⟩) plain
  · exact itself

theorem htmlText_append (a b : String) : htmlText (a ++ b) = htmlText a ++ htmlText b := by
  simp [htmlText, String.toList_append, List.flatMap_append, String.ofList_append]

theorem htmlText_of_harmless {content : String} (harmless : Harmless content) : htmlText content = content := by
  have same : content.toList.flatMap charText = content.toList := by
    rw [List.flatMap_congr fun c member => charText_of_not_mem (harmless c member), List.flatMap_singleton']
  rw [htmlText, same, String.ofList_toList]

/-- The pieces of a text put together, behind a run of characters that have no entities. -/
theorem join_htmlPieces (run cs : List Char) :
    String.join (htmlPieces run cs) = String.ofList (run.reverse ++ cs.flatMap charText) := by
  induction cs generalizing run with
  | nil =>
    rw [htmlPieces]
    cases run <;> simp
  | cons c rest ih =>
    have entity := entity?_eq c
    rw [htmlPieces, List.flatMap_cons, charText]
    cases found : entities.find? (·.1 = c) with
    | some entry =>
      have special : entity? c = some entry.2 := by rw [entity, found, Option.map_some]
      simp [special, ih]
    | none =>
      have plain : entity? c = Option.none := by rw [entity, found, Option.map_none]
      simp [plain, ih]

/-- A text that is escaped, and the text as it is. -/
theorem result_html (content : String) :
    (html.output content).result = (none.output content).result.map htmlText := by
  have pieces : String.join (htmlPieces [] content.toList) = htmlText content := by
    rw [join_htmlPieces, List.reverse_nil, List.nil_append, htmlText]
  simp [Output.result, output, html, none, Output.text, pieces, Except.map]

/-! ## Reading back -/

/-- Each entity begins with an ampersand, holds no other character with a meaning, and differs from the others in its
second character. -/
theorem entity_form : ∀ entry ∈ entities, entry.2.toList.head? = some '&' ∧
    (∀ c ∈ entities.map (·.1), c ∉ entry.2.toList.tail) ∧ 2 ≤ entry.2.toList.length ∧
      ∀ other ∈ entities, other.2.toList[1]? = entry.2.toList[1]? → other = entry := by
  simp [entities]

theorem eq_cons_of_entity {entry : Char × String} (inside : entry ∈ entities) :
    entry.2.toList = '&' :: entry.2.toList.tail := by
  obtain ⟨first, _⟩ := entity_form entry inside
  exact (List.cons_head?_tail first).symm

/-- The first character can be told from the text that is written for it and others. -/
theorem charText_append_inj {a b : Char} {x y : List Char} (same : charText a ++ x = charText b ++ y) :
    a = b ∧ x = y := by
  have ampersand : '&' ∈ entities.map (·.1) := by decide
  rcases charText_cases a with ⟨entry, inside, rfl, written⟩ | ⟨plain, written⟩
  · rcases charText_cases b with ⟨other, inside', rfl, written'⟩ | ⟨plain', written'⟩
    · rw [written, written'] at same
      obtain ⟨_, _, long, _⟩ := entity_form entry inside
      obtain ⟨_, _, long', unique⟩ := entity_form other inside'
      have second : (entry.2.toList ++ x)[1]? = entry.2.toList[1]? := List.getElem?_append_left (by omega)
      have second' : (other.2.toList ++ y)[1]? = other.2.toList[1]? := List.getElem?_append_left (by omega)
      obtain rfl := unique entry inside (by rw [← second, same, second'])
      exact ⟨rfl, List.append_cancel_left same⟩
    · rw [written, written', eq_cons_of_entity inside] at same
      obtain ⟨rfl, _⟩ := List.cons.inj same
      exact absurd ampersand plain'
  · rcases charText_cases b with ⟨other, inside', rfl, written'⟩ | ⟨plain', written'⟩
    · rw [written, written', eq_cons_of_entity inside'] at same
      obtain ⟨rfl, _⟩ := List.cons.inj same
      exact absurd ampersand plain
    · rw [written, written'] at same
      exact List.cons.inj same

theorem charText_ne_nil (c : Char) : charText c ≠ [] := by
  rcases charText_cases c with ⟨entry, inside, _, written⟩ | ⟨_, written⟩
  · rw [written, eq_cons_of_entity inside]
    exact List.cons_ne_nil _ _
  · simp [written]

theorem flatMap_charText_inj {cs ds : List Char} (same : cs.flatMap charText = ds.flatMap charText) : cs = ds := by
  induction cs generalizing ds with
  | nil =>
    cases ds with
    | nil => rfl
    | cons d others => exact absurd (List.append_eq_nil_iff.mp same.symm).1 (charText_ne_nil d)
  | cons c rest ih =>
    cases ds with
    | nil => exact absurd (List.append_eq_nil_iff.mp same).1 (charText_ne_nil c)
    | cons d others =>
      obtain ⟨rfl, later⟩ := charText_append_inj same
      rw [ih later]

/-- Different texts are escaped differently. -/
theorem htmlText_injective : Function.Injective htmlText := by
  intro a b same
  exact String.toList_inj.mp (flatMap_charText_inj (String.ofList_inj.mp same))

/-- Of the characters with a meaning only the ampersand is left. -/
theorem eq_ampersand_of_mem {content : String} {c : Char} (member : c ∈ (htmlText content).toList)
    (special : c ∈ entities.map (·.1)) : c = '&' := by
  rw [htmlText, String.toList_ofList] at member
  obtain ⟨source, _, inside⟩ := List.mem_flatMap.mp member
  rcases charText_cases source with ⟨entry, listed, _, written⟩ | ⟨plain, written⟩
  · rw [written, eq_cons_of_entity listed] at inside
    obtain ⟨_, free, _⟩ := entity_form entry listed
    exact (List.mem_cons.mp inside).resolve_right (free c special)
  · rw [written] at inside
    rw [List.mem_singleton.mp inside] at special
    exact absurd special plain

/-- Every ampersand begins an entity. -/
theorem entity_of_ampersand {cs before rest : List Char} (split : cs.flatMap charText = before ++ '&' :: rest) :
    ∃ entry ∈ entities, entry.2.toList <+: '&' :: rest := by
  induction cs generalizing before with
  | nil => simp at split
  | cons c others ih =>
    rw [List.flatMap_cons] at split
    rcases List.append_eq_append_iff.mp split with ⟨more, rfl, later⟩ | ⟨more, first, later⟩
    · exact ih later
    · -- The ampersand is the first character behind what is written for `c`, or one of its characters.
      cases more with
      | nil =>
        have behind : others.flatMap charText = [] ++ '&' :: rest := later.symm
        exact ih behind
      | cons d more =>
        obtain ⟨rfl, same⟩ := List.cons.inj later
        have ampersand : '&' ∈ entities.map (·.1) := by decide
        have member : '&' ∈ charText c := by simp [first]
        rcases charText_cases c with ⟨entry, listed, _, written⟩ | ⟨plain, written⟩
        · obtain ⟨_, free, _⟩ := entity_form entry listed
          cases before with
          | nil =>
            refine ⟨entry, listed, others.flatMap charText, ?_⟩
            rw [← written, first, same]
            rfl
          | cons e before =>
            refine absurd ?_ (free '&' ampersand)
            simp [← written, first]
        · rw [written] at member
          exact absurd (List.mem_singleton.mp member ▸ ampersand) plain

end Escaper

/-! ## Rendering -/

/-- A node that writes nothing but escaped values, beside texts without characters that have a meaning in HTML. -/
inductive Node.Escaped : Node → Prop where
  | text {content : String} (harmless : Escaper.Harmless content) : Escaped (.text content)
  | interpolation {lookup : Lookup} : Escaped (.interpolation lookup true)
  | sect {lookup : Lookup} {kind : SectionKind} {body : List Node} (inside : ∀ n ∈ body, Escaped n) :
    Escaped (.sect lookup kind body)
  | lambda {name : String} {body : List Node} (inside : ∀ n ∈ body, Escaped n) : Escaped (.lambda name body)

namespace Result
open Escaper

theorem map_andThen (a b : Result) : (a.andThen b).map htmlText = andThen (a.map htmlText) (b.map htmlText) := by
  rcases a with e | x
  · rfl
  · rcases b with e | y
    · rfl
    · exact congrArg Except.ok (htmlText_append x y)

theorem map_concat (results : List Result) :
    (concat results).map htmlText = concat (results.map (·.map htmlText)) := by
  induction results with
  | nil => rfl
  | cons a rest ih => exact (map_andThen a (concat rest)).trans (congrArg (andThen _) ih)

end Result

namespace Renderer
open Escaper

/-- The renderer with another escaper. -/
def withEscaper (r : Renderer) (e : Escaper) : Renderer := { r with escaper := e }

/-- What the functions of the renderer give is always escaped. -/
def CallsValues (r : Renderer) : Prop := ∀ entry ∈ r.lambdas, ∃ call, entry.2 = .value call

variable {r : Renderer}

/-- With escaping, nodes come to the escaped text of what they come to without. -/
def Escapes (r : Renderer) (nodes : List Node) : Prop :=
  ∀ stack, (r.withEscaper .html).rendered stack nodes = ((r.withEscaper .none).rendered stack nodes).map htmlText

theorem escapes_of_forall {nodes : List Node} (each : ∀ n ∈ nodes, r.Escapes [n]) : r.Escapes nodes := by
  intro stack
  induction nodes with
  | nil => rfl
  | cons n rest ih =>
    obtain ⟨first, others⟩ := List.forall_mem_cons.mp each
    rw [rendered_cons, rendered_cons (r.withEscaper .none), Result.map_andThen, first stack, ih others]

theorem escapes_lambda (values : r.CallsValues) (name : String) (body : List Node) : r.Escapes [.lambda name body] := by
  intro stack
  have lambdas (e : Escaper) : (r.withEscaper e).lambdas = r.lambdas := rfl
  simp only [rendered_lambda, called, lambdas]
  cases found : Dictionary.find? name r.lambdas with
  | none => rfl
  | some lambda =>
    obtain ⟨call, rfl⟩ := values _ (Dictionary.mem_of_find? found)
    cases stack.head? with
    | none => rfl
    | some current => exact result_html (call current)

theorem escapes_of_escaped (values : r.CallsValues) {n : Node} (escaped : n.Escaped) : r.Escapes [n] := by
  induction escaped with
  | @text content harmless =>
    intro stack
    rw [rendered_text, rendered_text, Except.map, htmlText_of_harmless harmless]
  | @interpolation lookup =>
    intro stack
    rw [rendered_interpolation, rendered_interpolation]
    cases lookup.eval? stack with
    | none => rfl
    | some v => exact result_html (r.formatter v)
  | @sect lookup kind body _ ih =>
    intro stack
    rw [rendered_sect, rendered_sect, Result.map_concat, List.map_map]
    congr 1
    refine List.map_congr_left fun inner _ => ?_
    exact escapes_of_forall ih inner
  | @lambda name body _ _ => exact escapes_lambda values name body

variable {p : Program}

theorem render_html (values : r.CallsValues) (escaped : ∀ n ∈ p.nodes, n.Escaped) (model : Value) :
    (r.withEscaper .html).render p model = ((r.withEscaper .none).render p model).map htmlText := by
  rw [render_eq_result, render_eq_result]
  exact escapes_of_forall (fun n member => escapes_of_escaped values (escaped n member)) [model]

/-- Where all that is written is escaped or has no characters with a meaning in HTML, rendering with escaping fails
as it does without, and else it gives the same text with each such character replaced by its entity. Hence there is
no such character in it but the ampersands with which entities begin, and of two texts that differ without escaping
the escaped ones differ too. -/
theorem html_is_complete (values : r.CallsValues) (escaped : ∀ n ∈ p.nodes, n.Escaped) (model : Value) :
    (∀ e, (r.withEscaper .html).render p model = .error e ↔ (r.withEscaper .none).render p model = .error e) ∧
      (∀ bare, (r.withEscaper .none).render p model = .ok bare →
        (r.withEscaper .html).render p model = .ok (htmlText bare)) ∧
      (∀ out, (r.withEscaper .html).render p model = .ok out →
        ('<' ∉ out.toList ∧ '>' ∉ out.toList ∧ '"' ∉ out.toList ∧ '\'' ∉ out.toList) ∧
          ∀ before rest, out.toList = before ++ '&' :: rest →
            ∃ entity ∈ ["&amp;", "&lt;", "&gt;", "&quot;", "&#x27;"], entity.toList <+: '&' :: rest) ∧
      ∀ {r' : Renderer} {p' : Program} {model' : Value} {bare bare' : String},
        r'.CallsValues → (∀ n ∈ p'.nodes, n.Escaped) → (r.withEscaper .none).render p model = .ok bare →
          (r'.withEscaper .none).render p' model' = .ok bare' → bare ≠ bare' →
          (r.withEscaper .html).render p model ≠ (r'.withEscaper .html).render p' model' := by
  have whole := render_html values escaped model
  refine ⟨?_, ?_, ?_, ?_⟩
  · intro e
    rw [whole]
    cases (r.withEscaper .none).render p model <;> simp [Except.map]
  · intro bare rendered
    rw [whole, rendered]
    rfl
  · intro out rendered
    rw [whole] at rendered
    cases bare : (r.withEscaper .none).render p model with
    | error e => simp [bare, Except.map] at rendered
    | ok text =>
      obtain rfl : htmlText text = out := by simpa [bare, Except.map] using rendered
      have gone {c : Char} (special : c ∈ entities.map (·.1)) (other : c ≠ '&') : c ∉ (htmlText text).toList :=
        fun member => other (eq_ampersand_of_mem member special)
      refine ⟨⟨gone (by decide) (by decide), gone (by decide) (by decide), gone (by decide) (by decide),
        gone (by decide) (by decide)⟩, ?_⟩
      intro before rest split
      rw [htmlText, String.toList_ofList] at split
      obtain ⟨entry, listed, begins⟩ := entity_of_ampersand split
      exact ⟨entry.2, List.mem_map_of_mem (f := (·.2)) listed, begins⟩
  · intro r' p' model' bare bare' values' escaped' rendered rendered' differ same
    rw [whole, render_html values' escaped' model', rendered, rendered'] at same
    exact differ (htmlText_injective (Except.ok.inj same))

/-- A list of names with a heading, and a function that is called for a signature. -/
def cardProgram : Program :=
  ⟨"card", [.text "To: ", .sect (.frame 0 ["names"]) .iterate [.interpolation (.current 0) true, .text "; "],
    .lambda "sign" [.text "ignored"]]⟩

def cardRenderer : Renderer := { lambdas := [("sign", .value fun _ => "'me'")] }

def cardModel (names : List String) : Value := .object [("names", .array (names.map .text))]

theorem cardProgram_escaped : ∀ n ∈ cardProgram.nodes, n.Escaped := by
  have harmless (content : String) (checked : content.toList.all fun c => !(entities.map (·.1)).contains c) :
      Harmless content := by
    intro c member
    simpa using List.all_eq_true.mp checked c member
  intro n member
  simp only [cardProgram, List.mem_cons, List.not_mem_nil, or_false] at member
  rcases member with rfl | rfl | rfl
  · exact .text (harmless _ (by decide))
  · refine .sect fun inner member => ?_
    simp only [List.mem_cons, List.not_mem_nil, or_false] at member
    rcases member with rfl | rfl
    · exact .interpolation
    · exact .text (harmless _ (by decide))
  · refine .lambda fun inner member => ?_
    obtain rfl := List.mem_singleton.mp member
    exact .text (harmless _ (by decide))

/-- Names with characters of every kind, and other names from which they stay different. -/
theorem card_escaped :
    (cardRenderer.withEscaper .none).render cardProgram (cardModel ["<a&b>", "\"é\""]) =
        .ok "To: <a&b>; \"é\"; 'me'" ∧
      (cardRenderer.withEscaper .html).render cardProgram (cardModel ["<a&b>", "\"é\""]) =
        .ok "To: &lt;a&amp;b&gt;; &quot;é&quot;; &#x27;me&#x27;" ∧
      (cardRenderer.withEscaper .html).render cardProgram (cardModel ["<a&b>", "\"é\""]) ≠
        (cardRenderer.withEscaper .html).render cardProgram (cardModel ["&lt;a&amp;b&gt;", "\"é\""]) := by
  have values : cardRenderer.CallsValues := by
    intro entry member
    obtain rfl := List.mem_singleton.mp member
    exact ⟨_, rfl⟩
  have bare : (cardRenderer.withEscaper .none).render cardProgram (cardModel ["<a&b>", "\"é\""]) =
      .ok "To: <a&b>; \"é\"; 'me'" := by cbv
  have other : (cardRenderer.withEscaper .none).render cardProgram (cardModel ["&lt;a&amp;b&gt;", "\"é\""]) =
      .ok "To: &lt;a&amp;b&gt;; \"é\"; 'me'" := by cbv
  obtain ⟨_, ok, _, distinct⟩ := html_is_complete values cardProgram_escaped (cardModel ["<a&b>", "\"é\""])
  refine ⟨bare, (ok _ bare).trans ?_, distinct values cardProgram_escaped bare other (by decide)⟩
  cbv

end Renderer
end Mustache

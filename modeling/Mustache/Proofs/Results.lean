import Mustache.Proofs.Emission
import Mustache.Renderer

/-!
# Results of rendering

What is left of an output once its pieces are forgotten: the whole text, or the error. The result of nodes
is made of the results of each of them (`rendered_append`, `rendered_sect`, `rendered_lambda`), and joining
adjacent texts does not change it (`rendered_joined`).
-/

namespace Mustache

/-- The text that is rendered, or the error that ends it. -/
abbrev Result := Except RenderError String

namespace Result

/-- A result after which another goes on. -/
def andThen (a b : Result) : Result := do return (← a) ++ (← b)

/-- Some results, one after another. -/
def concat (results : List Result) : Result := results.foldr andThen (.ok "")

theorem ok_andThen_ok (x y : String) : andThen (.ok x) (.ok y) = .ok (x ++ y) := rfl

theorem andThen_assoc (a b c : Result) : (a.andThen b).andThen c = a.andThen (b.andThen c) := by
  rcases a with e | x
  · rfl
  · rcases b with e | y
    · rfl
    · rcases c with e | z
      · rfl
      · simp [ok_andThen_ok, String.append_assoc]

theorem empty_andThen (a : Result) : andThen (.ok "") a = a := by
  rcases a with e | x
  · rfl
  · simp [ok_andThen_ok]

theorem andThen_empty (a : Result) : a.andThen (.ok "") = a := by
  rcases a with e | x
  · rfl
  · simp [ok_andThen_ok]

end Result

namespace Output

/-- The whole text of an output, or its error. -/
def result (o : Output) : Result :=
  match o.failure with
  | some e => .error e
  | none => .ok o.text

theorem result_andThen (a b : Output) : (a.andThen b).result = a.result.andThen b.result := by
  obtain ⟨as, _ | e⟩ := a
  · obtain ⟨bs, _ | e⟩ := b
    · simp [andThen, result, text, Result.ok_andThen_ok]
    · rfl
  · rfl

theorem result_concat (outputs : List Output) : (concat outputs).result = Result.concat (outputs.map result) := by
  induction outputs with
  | nil => rfl
  | cons o r ih =>
    rw [List.map_cons, Result.concat, List.foldr_cons, ← Result.concat, ← ih]
    exact result_andThen o (concat r)

end Output

/-- A text takes every piece. -/
theorem writeAll_text (taken : String) (pieces : List String) :
    Sink.text.writeAll taken pieces = (taken ++ String.join pieces, none) := by
  induction pieces generalizing taken with
  | nil => simp [Sink.writeAll]
  | cons piece r ih =>
    have step : Sink.text.writeAll taken (piece :: r) = Sink.text.writeAll (taken ++ piece) r := rfl
    simp [step, ih, String.append_assoc]

theorem writeOutput_text (taken : String) (o : Output) : Sink.text.writeOutput taken o = (taken ++ o.text, o.failure) := by
  simp only [Sink.writeOutput, writeAll_text, Output.text]

namespace Renderer

variable (r : Renderer) (stack : List Value)

theorem render_eq_result (p : Program) (model : Value) : r.render p model = (r.output p model).result := by
  simp only [render, renderInto, writeOutput_text, String.empty_append, Output.result]
  cases (r.output p model).failure <;> rfl

/-! ## Nodes -/

/-- The result of nodes on a stack. -/
def rendered (nodes : List Node) : Result := (r.renderNodes stack nodes).result

theorem rendered_nil : r.rendered stack [] = .ok "" := rfl

theorem rendered_cons (n : Node) (nodes : List Node) :
    r.rendered stack (n :: nodes) = (r.rendered stack [n]).andThen (r.rendered stack nodes) := by
  simp only [rendered, renderNodes, Output.result_andThen]
  rw [show Output.result {} = .ok "" from rfl, Result.andThen_empty]

theorem rendered_append (a b : List Node) :
    r.rendered stack (a ++ b) = (r.rendered stack a).andThen (r.rendered stack b) := by
  induction a with
  | nil => rw [List.nil_append, rendered_nil, Result.empty_andThen]
  | cons n nodes ih => rw [List.cons_append, rendered_cons, ih, ← Result.andThen_assoc, ← rendered_cons]

theorem rendered_text (content : String) : r.rendered stack [.text content] = .ok content := by
  simp [rendered, renderNodes, renderNode, Output.andThen, Output.result, Output.text]

theorem rendered_interpolation (lookup : Lookup) (escape : Bool) :
    r.rendered stack [.interpolation lookup escape] = (r.interpolate escape (lookup.eval? stack)).result := by
  simp only [rendered, renderNodes, renderNode, Output.result_andThen]
  exact Result.andThen_empty _

/-- A body is rendered on every stack that its value makes, one after another. -/
theorem rendered_sect (lookup : Lookup) (kind : SectionKind) (body : List Node) :
    r.rendered stack [.sect lookup kind body] =
      Result.concat ((sectionStacks kind (lookup.eval? stack) stack).map fun inner => r.rendered inner body) := by
  simp only [rendered, renderNodes, renderNode, Output.result_andThen, Output.result_concat, List.map_map]
  exact Result.andThen_empty _

/-- The result of a call, given the result of the body. -/
def called (name : String) (current? : Option Value) (body : Result) : Result :=
  match Dictionary.find? name r.lambdas, current? with
  | none, _ => .error (.noLambda name)
  | some _, none => .ok ""
  | some (.value call), some current => (r.escaper.output (call current)).result
  | some (.wrap call), some current => do return call current (← body)

theorem rendered_lambda (name : String) (body : List Node) :
    r.rendered stack [.lambda name body] = r.called name stack.head? (r.rendered stack body) := by
  simp only [rendered, renderNodes, renderNode, Output.result_andThen, callLambda, called]
  rw [show Output.result {} = .ok "" from rfl, Result.andThen_empty]
  rcases Dictionary.find? name r.lambdas with - | (call | call)
  · rfl
  · cases stack.head? <;> rfl
  · rcases stack.head? with - | current
    · rfl
    · obtain ⟨pieces, _ | e⟩ := r.renderNodes stack body
      · simp [Output.result, Output.text]
      · rfl

/-! ## Joined texts -/

theorem rendered_push (built : List Node) (n : Node) :
    r.rendered stack (Node.push built n).reverse = r.rendered stack (built.reverse ++ [n]) := by
  cases built with
  | nil => rfl
  | cons m others =>
    cases m with
    | text a =>
      cases n with
      | text b =>
        simp only [Node.push, List.reverse_cons, rendered_append, rendered_text, Result.andThen_assoc,
          Result.ok_andThen_ok]
      | _ =>
        rw [Node.push, List.reverse_cons]
        simp
    | _ =>
      rw [Node.push, List.reverse_cons]
      simp

/-- Joining adjacent texts does not change what is rendered. -/
theorem rendered_joined (nodes : List Node) : r.rendered stack (Node.joined nodes) = r.rendered stack nodes := by
  suffices general : ∀ built : List Node,
      r.rendered stack (nodes.foldl Node.push built).reverse = r.rendered stack (built.reverse ++ nodes) from general []
  intro built
  induction nodes generalizing built with
  | nil => simp
  | cons n others ih =>
    rw [List.foldl_cons, ih, rendered_append, rendered_push, ← rendered_append, List.append_assoc, List.singleton_append]

end Renderer
end Mustache

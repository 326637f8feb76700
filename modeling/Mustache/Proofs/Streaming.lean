import Mustache.Proofs.Results

/-!
# One stream for every sink

Rendering node by node into a sink, where each node is written before the next is looked at, is the same as writing
the pieces of the whole output afterwards (`Renderer.writeNodes_eq`). So what a sink of bytes with little room holds
at the end is the beginning of the text that a sink without bounds would hold, and a full sink is the first error
of all that come (`Renderer.renders_one_stream`).
-/

namespace Mustache

/-! ## Sinks -/

namespace Sink

variable {σ : Type}

/-- Goes on with what is taken, unless there was an error. -/
def onward (done : σ × Option RenderError) (next : σ → σ × Option RenderError) : σ × Option RenderError :=
  match done with
  | (taken, none) => next taken
  | refused => refused

theorem onward_assoc (done : σ × Option RenderError) (next last : σ → σ × Option RenderError) :
    onward (onward done next) last = onward done fun taken => onward (next taken) last := by
  obtain ⟨taken, _ | e⟩ := done <;> rfl

theorem onward_done (taken : σ) (next : σ → σ × Option RenderError) : onward (taken, none) next = next taken := rfl

theorem onward_refused (taken : σ) (e : RenderError) (next : σ → σ × Option RenderError) :
    onward (taken, some e) next = (taken, some e) := rfl

theorem onward_none (done : σ × Option RenderError) : (onward done fun taken => (taken, none)) = done := by
  obtain ⟨taken, _ | e⟩ := done <;> rfl

variable (sink : Sink σ) (taken : σ)

theorem writeAll_cons (piece : String) (pieces : List String) :
    sink.writeAll taken (piece :: pieces) = onward (sink.write taken piece) (sink.writeAll · pieces) := rfl

theorem writeAll_append (a b : List String) :
    sink.writeAll taken (a ++ b) = onward (sink.writeAll taken a) (sink.writeAll · b) := by
  induction a generalizing taken with
  | nil => rfl
  | cons piece r ih =>
    rw [List.cons_append, writeAll_cons, writeAll_cons, onward_assoc]
    congr 1
    funext taken
    exact ih taken

theorem writeOutput_eq (o : Output) :
    sink.writeOutput taken o = onward (sink.writeAll taken o.pieces) fun taken => (taken, o.failure) := rfl

theorem writeOutput_piece (piece : String) : sink.writeOutput taken { pieces := [piece] } = sink.write taken piece := by
  rw [writeOutput_eq, writeAll_cons, onward_assoc]
  exact onward_none _

theorem writeOutput_andThen (a b : Output) :
    sink.writeOutput taken (a.andThen b) = onward (sink.writeOutput taken a) (sink.writeOutput · b) := by
  obtain ⟨pieces, _ | e⟩ := a
  · simp only [Output.andThen, writeOutput_eq, writeAll_append, onward_assoc]
    rfl
  · simp only [Output.andThen, writeOutput_eq, onward_assoc]
    rfl

/-- Outputs are written one after another, until one of them has an error. -/
theorem writeOutput_concat {α : Type} (f : α → Output) (items : List α) (done : σ × Option RenderError) :
    (onward done fun taken => sink.writeOutput taken (.concat (items.map f))) =
      items.foldl (fun done item => onward done fun taken => sink.writeOutput taken (f item)) done := by
  induction items generalizing done with
  | nil => exact onward_none done
  | cons item rest ih =>
    rw [List.foldl_cons, ← ih, onward_assoc]
    congr 1
    funext taken
    exact writeOutput_andThen sink taken (f item) (.concat (rest.map f))

end Sink

/-! ## Node by node -/

namespace Renderer
open Sink

/-- Writes a section, given how its body is written on a stack: once or not at all where it tests its value, and else
with the value, or each of its items, as one value more. -/
def writeSection {σ : Type} (kind : SectionKind) (value : Option Value) (stack : List Value) (taken : σ)
    (body : List Value → σ → σ × Option RenderError) : σ × Option RenderError :=
  match kind with
  | .condition => if Value.truthy value then body stack taken else (taken, none)
  | .inverted => if Value.truthy value then (taken, none) else body stack taken
  | .iterate | .within | .dynamic =>
    match value with
    | some (.array items) => items.foldl (fun done item => onward done (body (item :: stack))) (taken, none)
    | some (.boolean true) =>
      match stack.head? with
      | some current => body (current :: stack) taken
      | none => (taken, none)
    | some v => if Value.truthy (some v) then body (v :: stack) taken else (taken, none)
    | none => (taken, none)

mutual
/-- Writes a node to a sink, and tells what the sink has taken then. The body of a lambda that wraps it is rendered
to a text of its own first. -/
def writeNode {σ : Type} (r : Renderer) (sink : Sink σ) (stack : List Value) (taken : σ) : Node → σ × Option RenderError
  | .text content => sink.write taken content
  | .interpolation lookup escape =>
    match lookup.eval? stack with
    | none => (taken, none)
    | some v =>
      if escape then sink.writeOutput taken (r.escaper.output (r.formatter v)) else sink.write taken (r.formatter v)
  | .sect lookup kind body =>
    writeSection kind (lookup.eval? stack) stack taken fun inner taken => writeNodes r sink inner taken body
  | .lambda name body =>
    match Dictionary.find? name r.lambdas, stack.head? with
    | none, _ => (taken, some (.noLambda name))
    | some _, none => (taken, none)
    | some (.value call), some current => sink.writeOutput taken (r.escaper.output (call current))
    | some (.wrap call), some current =>
      match writeNodes r .text stack "" body with
      | (content, none) => sink.write taken (call current content)
      | (_, some e) => (taken, some e)

/-- Writes nodes to a sink one after another, until there is an error. -/
def writeNodes {σ : Type} (r : Renderer) (sink : Sink σ) (stack : List Value) (taken : σ) :
    List Node → σ × Option RenderError
  | [] => (taken, none)
  | n :: rest => onward (writeNode r sink stack taken n) fun taken => writeNodes r sink stack taken rest
end

section

variable {σ : Type} (r : Renderer) (sink : Sink σ) (stack : List Value) (taken : σ)

/-- The output of a section, given the output of its body on a stack. -/
theorem writeOutput_section (kind : SectionKind) (value : Option Value) (render : List Value → Output) :
    sink.writeOutput taken (.concat ((sectionStacks kind value stack).map render)) =
      writeSection kind value stack taken fun inner taken => sink.writeOutput taken (render inner) := by
  have written := writeOutput_concat sink render (sectionStacks kind value stack) (taken, none)
  rw [onward_done] at written
  rw [written]
  cases kind with
  | condition => cases truth : Value.truthy value <;> simp [sectionStacks, writeSection, truth, onward]
  | inverted => cases truth : Value.truthy value <;> simp [sectionStacks, writeSection, truth, onward]
  | iterate | within | dynamic =>
    cases value with
    | none => rfl
    | some v =>
      cases v with
      | array items => exact List.foldl_map
      | boolean b =>
        cases b with
        | true => cases stack <;> rfl
        | false => rfl
      | null | number | text | object => rfl

/-- The output of a call, given how its body is rendered to a text. -/
theorem writeOutput_call (name : String) (body : Output) :
    sink.writeOutput taken (r.callLambda name stack body) =
      match Dictionary.find? name r.lambdas, stack.head? with
      | none, _ => (taken, some (.noLambda name))
      | some _, none => (taken, none)
      | some (.value call), some current => sink.writeOutput taken (r.escaper.output (call current))
      | some (.wrap call), some current =>
        match Sink.text.writeOutput "" body with
        | (content, none) => sink.write taken (call current content)
        | (_, some e) => (taken, some e) := by
  unfold callLambda
  rcases Dictionary.find? name r.lambdas with - | (call | call)
  · rfl
  · cases stack.head? <;> rfl
  · rcases stack.head? with - | current
    · rfl
    · rw [writeOutput_text, String.empty_append]
      obtain ⟨pieces, _ | e⟩ := body
      · exact writeOutput_piece sink taken _
      · rfl

end

mutual
/-- What is written for a node is its output. -/
theorem writeNode_eq {σ : Type} (r : Renderer) (sink : Sink σ) (stack : List Value) (taken : σ) (n : Node) :
    r.writeNode sink stack taken n = sink.writeOutput taken (r.renderNode stack n) := by
  cases n with
  | text content => rw [writeNode, renderNode, writeOutput_piece]
  | interpolation lookup escape =>
    simp only [writeNode, renderNode]
    cases lookup.eval? stack with
    | none => rfl
    | some v => cases escape <;> simp [interpolate, writeOutput_piece]
  | sect lookup kind body =>
    have inner : ∀ (inner : List Value) (taken : σ),
        r.writeNodes sink inner taken body = sink.writeOutput taken (r.renderNodes inner body) :=
      fun inner taken => writeNodes_eq r sink inner taken body
    simp only [writeNode, renderNode, writeOutput_section, inner]
  | lambda name body =>
    simp only [writeNode, renderNode, writeOutput_call, writeNodes_eq r .text stack "" body]

/-- What is written for nodes is their output. -/
theorem writeNodes_eq {σ : Type} (r : Renderer) (sink : Sink σ) (stack : List Value) (taken : σ) (nodes : List Node) :
    r.writeNodes sink stack taken nodes = sink.writeOutput taken (r.renderNodes stack nodes) := by
  cases nodes with
  | nil => rfl
  | cons n rest =>
    rw [writeNodes, renderNodes, writeOutput_andThen, writeNode_eq r sink stack taken n]
    congr 1
    funext taken
    exact writeNodes_eq r sink stack taken rest
end

end Renderer

/-! ## Little room -/

namespace Sink

theorem encode_append (a b : String) : encode (a ++ b) = encode a ++ encode b := by simp [encode]

/-- What bytes leave where there is so much room: all of them, or those for which there is room and an error. -/
def cut (room : Nat) (all : List UInt8) : List UInt8 × Option RenderError :=
  if all.length ≤ room then (all, none) else (all.take room, some (.system .nothingWritten))

section

variable {room : Nat} {all : List UInt8}

theorem cut_of_le (fits : all.length ≤ room) : cut room all = (all, none) := if_pos fits

theorem cut_of_lt (full : room < all.length) : cut room all = (all.take room, some (.system .nothingWritten)) :=
  if_neg (Nat.not_le_of_lt full)

/-- Bytes behind those for which there is no room do not matter. -/
theorem cut_append_of_lt (full : room < all.length) (more : List UInt8) : cut room (all ++ more) = cut room all := by
  have longer : room < (all ++ more).length := by
    rw [List.length_append]
    omega
  rw [cut_of_lt longer, cut_of_lt full, List.take_append_of_le_length (Nat.le_of_lt full)]

end

/-- A sink that takes bytes as long as there is room, in whatever way it does that. -/
def Limited (sink : Sink (List UInt8)) (room : Nat) : Prop :=
  ∀ taken piece, taken.length ≤ room → sink.write taken piece = cut room (taken ++ encode piece)

/-- Of all pieces a limited sink takes what it would take of one. -/
theorem Limited.writeAll {sink : Sink (List UInt8)} {room : Nat} (limited : sink.Limited room)
    {taken : List UInt8} (fits : taken.length ≤ room) (pieces : List String) :
    sink.writeAll taken pieces = cut room (taken ++ encode (String.join pieces)) := by
  induction pieces generalizing taken with
  | nil => simp [Sink.writeAll, cut_of_le fits, encode]
  | cons piece rest ih =>
    rw [writeAll_cons, limited taken piece fits, String.join_cons, encode_append, ← List.append_assoc]
    rcases Nat.lt_or_ge room (taken ++ encode piece).length with full | more
    · rw [cut_append_of_lt full, cut_of_lt full, onward_refused]
    · rw [cut_of_le more, onward_done, ih more]

theorem limited_bytes (room : Nat) : (bytes room).Limited room := fun _ _ _ => rfl

end Sink

/-- A device that takes bytes at its own pace, as long as it has room. -/
structure Device where
  room : Nat
  /-- How many bytes it would take at once, by those that it has and those that are offered. -/
  pace : List UInt8 → List UInt8 → Nat

namespace Device
open Sink

/-- How many bytes of an offer are taken: at least one if there is one, and room for it. -/
def accepts (d : Device) (taken offered : List UInt8) : Nat :=
  min (d.pace taken offered + 1) (min offered.length (d.room - taken.length))

/-- Offers what is left of some bytes again and again, until nothing is left or nothing more is taken. -/
def pour (d : Device) (taken offered : List UInt8) : List UInt8 × Option RenderError :=
  if offered = [] then (taken, none)
  else if d.accepts taken offered = 0 then (taken, some (.system .nothingWritten))
  else d.pour (taken ++ offered.take (d.accepts taken offered)) (offered.drop (d.accepts taken offered))
termination_by offered.length
decreasing_by
  have some : offered.length ≠ 0 := by simpa
  rw [List.length_drop]
  omega

def sink (d : Device) : Sink (List UInt8) where
  write taken piece := d.pour taken (encode piece)

/-- Whatever its pace is, a device takes what there is room for. -/
theorem pour_eq_cut (d : Device) {taken offered : List UInt8} (fits : taken.length ≤ d.room) :
    d.pour taken offered = cut d.room (taken ++ offered) := by
  fun_induction pour d taken offered with
  | case1 taken => simp [cut, fits]
  | case2 taken offered some none =>
    have length : offered.length ≠ 0 := by simpa using some
    have full : d.room = taken.length := by
      unfold accepts at none
      omega
    simp [cut, full, length]
  | case3 taken offered some more ih =>
    have within : (taken ++ offered.take (d.accepts taken offered)).length ≤ d.room := by
      rw [List.length_append, List.length_take]
      unfold accepts
      omega
    rw [ih within, List.append_assoc, List.take_append_drop]

theorem limited_sink (d : Device) : d.sink.Limited d.room := fun _ _ fits => d.pour_eq_cut fits

end Device

namespace Renderer
open Sink

/-- A sink with little room has the beginning of what a text has, and an error of its own if that is not all. -/
theorem renderInto_limited (r : Renderer) (p : Program) (model : Value) {sink : Sink (List UInt8)} {room : Nat}
    (limited : sink.Limited room) :
    r.renderInto p model sink [] =
      ((encode (r.renderInto p model .text "").1).take room,
        if room < (encode (r.renderInto p model .text "").1).length then some (.system .nothingWritten)
        else (r.renderInto p model .text "").2) := by
  have whole : r.renderInto p model .text "" = ((r.output p model).text, (r.output p model).failure) := by
    rw [renderInto, writeOutput_text, String.empty_append]
  have nothing : ([] : List UInt8).length ≤ room := Nat.zero_le room
  have written : r.renderInto p model sink [] =
      onward (cut room (encode (r.output p model).text)) fun taken => (taken, (r.output p model).failure) := by
    rw [renderInto, writeOutput_eq, limited.writeAll nothing, List.nil_append, ← Output.text]
  rw [whole, written]
  rcases Nat.lt_or_ge room (encode (r.output p model).text).length with full | fits
  · rw [cut_of_lt full, if_pos full, onward_refused]
  · rw [cut_of_le fits, if_neg (Nat.not_lt_of_le fits), onward_done, List.take_of_length_le fits]

/-- Rendering writes one stream, node by node, into whatever sink. A device with little room has the beginning of the
text that a sink without bounds has, whether rendering fails or not; the error is that of the device if there is more
text than room, and else that of rendering. A lambda whose body fails writes nothing of the body. This rests on the
escapers, which hand on what the sink refuses (`Escaper`). -/
theorem renders_one_stream (r : Renderer) (p : Program) (model : Value) :
    (∀ {σ : Type} (sink : Sink σ) (taken : σ),
        r.renderInto p model sink taken = r.writeNodes sink [model] taken p.nodes) ∧
      (∀ d : Device,
        let whole := r.renderInto p model .text ""
        r.renderInto p model d.sink [] = r.renderInto p model (.bytes d.room) [] ∧
          r.renderInto p model d.sink [] =
            ((encode whole.1).take d.room,
              if d.room < (encode whole.1).length then some (.system .nothingWritten) else whole.2)) ∧
      ∀ {σ : Type} (sink : Sink σ) (stack : List Value) (taken : σ) (name : String) (body : List Node)
        (call : Value → String → String) (current : Value) (e : RenderError),
        Dictionary.find? name r.lambdas = some (.wrap call) → stack.head? = some current →
          (r.writeNodes .text stack "" body).2 = some e →
          r.writeNode sink stack taken (.lambda name body) = (taken, some e) := by
  refine ⟨?_, ?_, ?_⟩
  · intro σ sink taken
    exact (writeNodes_eq r sink [model] taken p.nodes).symm
  · intro d
    have device := r.renderInto_limited p model d.limited_sink
    exact ⟨device.trans (r.renderInto_limited p model (limited_bytes d.room)).symm, device⟩
  · intro σ sink stack taken name body call current e wraps top fails
    rw [writeNode, wraps, top]
    dsimp only
    split
    · next content none =>
      rw [none] at fails
      cases fails
    · next content other some =>
      rw [some] at fails
      rw [Option.some.inj fails]

/-- A lambda that gives its body back, around a text and a lambda that there is not. -/
def broken : List Node := [.text "x", .lambda "gone" []]

def brokenRenderer : Renderer := { lambdas := [("same", .wrap fun _ content => content)] }

def brokenProgram : Program := ⟨"main", [.text "aé", .lambda "same" broken, .text "z"]⟩

/-- A device with room for two bytes that takes one at once has one and a half of the two characters before the lambda,
and with room for three it is the lambda that fails. -/
theorem broken_stream :
    brokenRenderer.renderInto brokenProgram .null (Device.sink ⟨2, fun _ _ => 0⟩) [] =
        ([0x61, 0xC3], some (.system .nothingWritten)) ∧
      brokenRenderer.renderInto brokenProgram .null (Device.sink ⟨3, fun _ _ => 0⟩) [] =
        ([0x61, 0xC3, 0xA9], some (.noLambda "gone")) ∧
      (brokenRenderer.writeNodes .text [.null] "" broken).2 = some (.noLambda "gone") ∧
      brokenRenderer.writeNode .text [.null] "aé" (.lambda "same" broken) = ("aé", some (.noLambda "gone")) := by
  obtain ⟨_, device, wrap⟩ := renders_one_stream brokenRenderer brokenProgram .null
  have fails : (brokenRenderer.writeNodes .text [.null] "" broken).2 = some (.noLambda "gone") := by decide
  refine ⟨?_, ?_, fails, wrap .text [.null] "aé" "same" broken _ .null _ rfl rfl fails⟩
  · rw [(device ⟨2, fun _ _ => 0⟩).2]
    decide
  · rw [(device ⟨3, fun _ _ => 0⟩).2]
    decide

end Renderer
end Mustache

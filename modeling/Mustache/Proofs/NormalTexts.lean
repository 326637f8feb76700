import Mustache.Proofs.Origins
import Mustache.Proofs.Streaming

/-!
# Texts in normal form

Among the statements of a source and among the nodes of a program no text is empty and no two texts are neighbours, at
any depth (`NormalForm`). Statements and nodes are both listed newest first while they are built, and each new one is
pushed (`Joins`); what is in normal form stays so (`NormalForm.push`). A sink that does not see where pieces are cut
takes the same from joined nodes as from the nodes themselves (`writeOutput_joined`).
-/

namespace Mustache
open Text

/-! ## Trees with texts -/

/-- Trees of which some are texts: what a text says, and what stands between the tags of any other. -/
class TextTree (α : Type) where
  text? : α → Option String
  body : α → List α

open TextTree

section

variable {α : Type} [TextTree α] {a b : α} {items rest : List α} {add : List α → α → List α}

/-- No text is empty and no two texts are neighbours, nor is it so in any body, however deep. -/
inductive NormalForm : List α → Prop where
  | intro {items : List α} (filled : ∀ a ∈ items, text? a ≠ some "")
      (apart : items.IsChain fun a b => text? a = none ∨ text? b = none)
      (inside : ∀ a ∈ items, NormalForm (body a)) : NormalForm items

/-- Adds to a list, newest first: a text joins the text before it, and anything else comes in front. -/
structure Joins (add : List α → α → List α) : Prop where
  text : ∀ {a b rest before content}, text? b = some before → text? a = some content →
    ∃ whole, add (b :: rest) a = whole :: rest ∧ text? whole = some (before ++ content) ∧ body whole = []
  other : ∀ {a items}, (∀ b ∈ items.head?, text? a = none ∨ text? b = none) → add items a = a :: items

theorem NormalForm.nil : NormalForm ([] : List α) := .intro nofun .nil nofun

theorem normalForm_cons_iff : NormalForm (a :: items) ↔
    text? a ≠ some "" ∧ NormalForm (body a) ∧ (∀ b ∈ items.head?, text? a = none ∨ text? b = none) ∧
      NormalForm items := by
  constructor
  · rintro ⟨filled, apart, inside⟩
    obtain ⟨first, others⟩ := List.forall_mem_cons.mp filled
    obtain ⟨within, behind⟩ := List.forall_mem_cons.mp inside
    obtain ⟨next, chain⟩ := List.isChain_cons.mp apart
    exact ⟨first, within, next, .intro others chain behind⟩
  · rintro ⟨first, within, next, ⟨others, chain, behind⟩⟩
    exact .intro (List.forall_mem_cons.mpr ⟨first, others⟩) (List.isChain_cons.mpr ⟨next, chain⟩)
      (List.forall_mem_cons.mpr ⟨within, behind⟩)

theorem NormalForm.reverse (normal : NormalForm items) : NormalForm items.reverse := by
  obtain ⟨filled, apart, inside⟩ := normal
  refine .intro (fun a member => filled a (List.mem_reverse.mp member)) ?_
    fun a member => inside a (List.mem_reverse.mp member)
  exact List.isChain_reverse.mpr (apart.imp fun _ _ => Or.symm)

theorem NormalForm.push (joins : Joins add) (normal : NormalForm items) (filled : text? a ≠ some "")
    (inside : NormalForm (body a)) : NormalForm (add items a) := by
  by_cases apart : ∀ b ∈ items.head?, text? a = none ∨ text? b = none
  · rw [joins.other apart]
    exact normalForm_cons_iff.mpr ⟨filled, inside, apart, normal⟩
  · push Not at apart
    obtain ⟨b, first, content, before⟩ := apart
    obtain ⟨content, said⟩ := Option.ne_none_iff_exists'.mp content
    obtain ⟨before, said_before⟩ := Option.ne_none_iff_exists'.mp before
    obtain ⟨rest, rfl⟩ := List.head?_eq_some_iff.mp first
    obtain ⟨filled_before, _, next, others⟩ := normalForm_cons_iff.mp normal
    obtain ⟨whole, pushed, joined, leaf⟩ :
        ∃ whole, add (b :: rest) a = whole :: rest ∧ text? whole = some (before ++ content) ∧ body whole = [] :=
      joins.text said_before said
    rw [pushed]
    refine normalForm_cons_iff.mpr ⟨?_, leaf ▸ .nil, fun c member => ?_, others⟩
    · simp_all
    · exact (next c member).imp_left fun none => by simp [said_before] at none

theorem NormalForm.foldl (joins : Joins add) (each : ∀ a ∈ items, text? a ≠ some "" ∧ NormalForm (body a))
    (first : NormalForm rest) : NormalForm (items.foldl add rest) := by
  induction items generalizing rest with
  | nil => exact first
  | cons a others ih =>
    obtain ⟨⟨filled, inside⟩, later⟩ := List.forall_mem_cons.mp each
    exact ih later (first.push joins filled inside)

end

/-! ## Statements -/

instance : TextTree Statement where
  text?
    | .text content => some content
    | _ => none
  body := Statement.body

theorem Statement.joins_push : Joins Statement.push where
  text {a b} _ _ _ said_before said := by
    cases a <;> cases said
    cases b <;> cases said_before
    exact ⟨_, rfl, rfl, rfl⟩
  other {a items} apart := by
    rcases items with - | ⟨b, rest⟩
    · rfl
    · have first := apart b rfl
      cases a <;> cases b <;> first | rfl | simp [text?] at first

namespace Outline

/-- What is read so far is in normal form, before the tags that are open too. -/
def Normal (o : Outline) : Prop := NormalForm o.stmts ∧ ∀ entry ∈ o.opened, NormalForm entry.2

variable {o t : Outline} {s : Statement} {name indent : String} {position : Position} {line : Line}

theorem Normal.add (normal : o.Normal) (filled : text? s ≠ some "") (inside : NormalForm (body s)) :
    (o.add s).Normal :=
  ⟨normal.1.push Statement.joins_push filled inside, normal.2⟩

theorem Normal.enter (normal : o.Normal) (tag : OpenTag) : (o.enter tag).Normal :=
  ⟨.nil, List.forall_mem_cons.mpr ⟨normal.1, normal.2⟩⟩

/-- An open tag becomes a statement around its body. -/
theorem close_eq (tag : OpenTag) (stmts : List Statement) :
    text? (tag.close stmts) = none ∧ body (tag.close stmts) = stmts := by
  unfold OpenTag.close
  cases tag.kind <;> exact ⟨rfl, rfl⟩

theorem Normal.leave (normal : o.Normal) (left : o.leave name position = .ok t) : t.Normal := by
  obtain ⟨stmts, opened⟩ := o
  unfold Outline.leave at left
  cases opened with
  | nil => cases left
  | cons entry others =>
    obtain ⟨tag, before⟩ := entry
    obtain ⟨first, later⟩ := List.forall_mem_cons.mp normal.2
    by_cases same : tag.name = name
    · obtain rfl : _ = t := by simpa [same] using left
      obtain ⟨no_text, around⟩ := close_eq tag stmts.reverse
      refine ⟨first.push Statement.joins_push (by simp [no_text]) ?_, later⟩
      rw [around]
      exact normal.1.reverse
    · simp [same] at left

theorem Normal.readTag {kind : TagKind} (normal : o.Normal) (read : o.readTag indent line position name kind = .ok t) :
    t.Normal := by
  cases kind with
  | comment =>
    cases read
    exact normal
  | interpolation | unescaped =>
    obtain ⟨_, rfl⟩ := withReference_ok read
    exact normal.add nofun .nil
  | sectionStart | invertedStart =>
    obtain ⟨_, rfl⟩ := withReference_ok read
    exact normal.enter _
  | parentStart | blockStart =>
    cases read
    exact normal.enter _
  | inclusion =>
    cases read
    exact normal.add nofun .nil
  | scopeEnd => exact normal.leave read

theorem Normal.readToken {token : LocatedToken} (normal : o.Normal) (filled : ∀ content, token.token = .text content → content ≠ "")
    (read : o.readToken indent line token = .ok t) : t.Normal := by
  unfold Outline.readToken at read
  cases kind : token.token with
  | text content =>
    obtain rfl : _ = t := by simpa [kind] using read
    exact normal.add (by simpa [text?] using filled content kind) .nil
  | newline lineBreak =>
    obtain rfl : _ = t := by simpa [kind] using read
    exact normal.add (by cases lineBreak <;> simp [text?, LineBreak.text]) .nil
  | delimiters before after =>
    obtain rfl : o = t := by simpa [kind] using read
    exact normal
  | tag name tagKind => exact normal.readTag (by simpa [kind] using read)

theorem Normal.readLine (normal : o.Normal) (filled : ∀ u ∈ line.tokens, ∀ content, u.token = .text content → content ≠ "")
    (read : o.readLine indent line = .ok t) : t.Normal := by
  unfold Outline.readLine at read
  refine foldlM_invariant_of_mem (fun _ u member _ before => before.readToken (filled u (List.mem_of_mem_filter member)))
    ?_ read
  split
  · exact normal
  · next indented =>
    rw [Bool.or_eq_true, not_or, String.isEmpty_iff] at indented
    exact normal.add (by simpa [text?] using indented.2) .nil

end Outline

/-- A text among the tokens of a source is not empty. -/
theorem filled_of_token {source content : String} {t : LocatedToken} (member : t ∈ (tokenize source).tokens)
    (token : t.token = .text content) : content ≠ "" := by
  obtain ⟨before, after, cut⟩ := List.append_of_mem member
  have written := (recognised_at cut).written
  rw [token] at written
  generalize t.raw.toList = raw at written
  cases written with
  | text filled => exact filled

theorem normal_of_ofSource {source indent : String} {stmts : List Statement}
    (parsed : Statement.ofSource source indent = .ok stmts) : NormalForm stmts := by
  obtain ⟨clean, read⟩ := ofSource_eq_ok.mp parsed
  obtain ⟨o, folded, _, rfl⟩ := readLines_eq_ok.mp read
  have filled : ∀ line ∈ (layout source).lines, ∀ u ∈ line.tokens, ∀ content, u.token = .text content → content ≠ "" :=
    fun line member u inside _ => filled_of_token (tokens_of_lines clean ▸ List.mem_flatMap.mpr ⟨line, member, inside⟩)
  have normal : o.Normal :=
    foldlM_invariant_of_mem (fun _ line member _ before => before.readLine (filled line member)) ⟨.nil, by simp⟩ folded
  exact normal.1.reverse

/-! ## Nodes -/

instance : TextTree Node where
  text?
    | .text content => some content
    | _ => none
  body
    | .sect _ _ body | .lambda _ body => body
    | _ => []

theorem Node.joins_push : Joins Node.push where
  text {a b} _ _ _ said_before said := by
    cases a <;> cases said
    cases b <;> cases said_before
    exact ⟨_, rfl, rfl, rfl⟩
  other {a items} apart := by
    rcases items with - | ⟨b, rest⟩
    · rfl
    · have first := apart b rfl
      cases a <;> cases b <;> first | rfl | simp [text?] at first

theorem normal_joined {nodes : List Node} (each : ∀ n ∈ nodes, text? n ≠ some "" ∧ NormalForm (body n)) :
    NormalForm (Node.joined nodes) :=
  (NormalForm.nil.foldl Node.joins_push each).reverse

theorem normal_directBlocks {stmts : List Statement} (normal : NormalForm stmts) :
    ∀ entry ∈ Compiler.directBlocks stmts, NormalForm entry.2 := by
  intro entry member
  obtain ⟨position, block⟩ := Compiler.mem_directBlocks member
  obtain ⟨_, _, inside⟩ := normal
  exact inside _ block

/-- No text that is emitted is empty, and bodies are in normal form; the texts are still to be joined. -/
theorem normal_of_emits {c : Compiler} {levels : Nat} {scope : Scope} {chain : List String} {overrides : Overrides}
    {stmts : List Statement} {met : List (String × Resolution)} {nodes : List Node}
    (emits : Emits c levels scope chain overrides stmts met nodes) (normal : NormalForm stmts)
    (replaced : ∀ entry ∈ overrides, NormalForm entry.2) : ∀ n ∈ nodes, text? n ≠ some "" ∧ NormalForm (body n) := by
  induction emits with
  | nil => exact nofun
  | text _ after =>
    obtain ⟨filled, _, _, others⟩ := normalForm_cons_iff.mp normal
    exact List.forall_mem_cons.mpr ⟨⟨by simpa [text?] using filled, .nil⟩, after others replaced⟩
  | interpolation _ _ after =>
    obtain ⟨_, _, _, others⟩ := normalForm_cons_iff.mp normal
    exact List.forall_mem_cons.mpr ⟨⟨nofun, .nil⟩, after others replaced⟩
  | lambda _ _ _ within after | sect _ _ _ _ within after =>
    obtain ⟨_, inside, _, others⟩ := normalForm_cons_iff.mp normal
    exact List.forall_mem_cons.mpr ⟨⟨nofun, normal_joined (within inside replaced)⟩, after others replaced⟩
  | inclusion _ _ parsed _ _ within after =>
    obtain ⟨_, _, _, others⟩ := normalForm_cons_iff.mp normal
    exact List.forall_mem_append.mpr ⟨within (normal_of_ofSource parsed) nofun, after others replaced⟩
  | parent _ _ parsed _ _ within after =>
    obtain ⟨_, inside, _, others⟩ := normalForm_cons_iff.mp normal
    have extended : ∀ entry ∈ Dictionary.insertAll _ (Compiler.directBlocks _), NormalForm entry.2 := fun entry member =>
      (Dictionary.mem_of_mem_insertAll member).elim (replaced entry) (normal_directBlocks inside entry)
    exact List.forall_mem_append.mpr ⟨within (normal_of_ofSource parsed) extended, after others replaced⟩
  | replaced found _ _ within after =>
    obtain ⟨_, _, _, others⟩ := normalForm_cons_iff.mp normal
    have inside := within (replaced _ (Dictionary.mem_of_find? found)) fun entry member =>
      replaced entry (List.mem_of_mem_filter member)
    exact List.forall_mem_append.mpr ⟨inside, after others replaced⟩
  | block _ _ _ within after =>
    obtain ⟨_, inside, _, others⟩ := normalForm_cons_iff.mp normal
    exact List.forall_mem_append.mpr ⟨within inside replaced, after others replaced⟩

theorem normal_of_entry {c : Compiler} {entry : Compiler.Entry} {p : Program} {s : CompileState}
    (compiled : c.compileEntry entry = .ok p s) : NormalForm p.nodes := by
  obtain ⟨_, _, _, ⟨stmts, nodes, parsed, emits, rfl⟩, _⟩ := Compiler.compiles_of_entry compiled
  exact normal_joined (normal_of_emits emits (normal_of_ofSource parsed) nofun)

/-! ## Rendering -/

/-- What a sink takes and whether it refuses does not depend on where the pieces are cut. -/
def Sink.Seamless {σ : Type} (sink : Sink σ) : Prop :=
  ∀ taken a b, sink.write taken (a ++ b) = onward (sink.write taken a) (sink.write · b)

namespace Sink

theorem seamless_text : Sink.text.Seamless := by
  intro taken a b
  simp only [text, onward, String.append_assoc]

theorem seamless_bytes (room : Nat) : (bytes room).Seamless := by
  intro taken a b
  show cut room (taken ++ encode (a ++ b)) = onward (cut room (taken ++ encode a)) fun taken => cut room (taken ++ encode b)
  rw [encode_append, ← List.append_assoc]
  rcases Nat.lt_or_ge room (taken ++ encode a).length with full | fits
  · rw [cut_append_of_lt full, cut_of_lt full, onward_refused]
  · rw [cut_of_le fits, onward_done]

end Sink

namespace Renderer
open Sink

variable {σ : Type} {sink : Sink σ} (r : Renderer) (stack : List Value) (taken : σ)

theorem renderNodes_append (a b : List Node) :
    r.renderNodes stack (a ++ b) = (r.renderNodes stack a).andThen (r.renderNodes stack b) := by
  induction a with
  | nil => rfl
  | cons n rest ih => rw [List.cons_append, renderNodes, ih, ← Output.andThen_assoc, ← renderNodes]

theorem writeOutput_push (seamless : sink.Seamless) (built : List Node) (n : Node) :
    sink.writeOutput taken (r.renderNodes stack (Node.push built n).reverse) =
      sink.writeOutput taken (r.renderNodes stack (built.reverse ++ [n])) := by
  have apart : (n :: built).reverse = built.reverse ++ [n] := List.reverse_cons
  cases built with
  | nil => rfl
  | cons m others =>
    cases m with
    | text before =>
      cases n with
      | text content =>
        have piece (taken : σ) (content : String) :
            sink.writeOutput taken (r.renderNodes stack [.text content]) = sink.write taken content :=
          (writeOutput_andThen sink taken _ _).trans ((onward_none _).trans (writeOutput_piece sink taken content))
        simp only [Node.push, List.reverse_cons, renderNodes_append, writeOutput_andThen, onward_assoc, piece, seamless _ _ _]
      | _ =>
        rw [Node.push, apart]
        simp
    | _ =>
      rw [Node.push, apart]
      simp

/-- A sink that does not see the cuts takes the same from nodes whose texts are joined. -/
theorem writeOutput_joined (seamless : sink.Seamless) (nodes : List Node) :
    sink.writeOutput taken (r.renderNodes stack (nodes.foldl Node.push []).reverse) =
      sink.writeOutput taken (r.renderNodes stack nodes) := by
  suffices general : ∀ built : List Node,
      sink.writeOutput taken (r.renderNodes stack (nodes.foldl Node.push built).reverse) =
        sink.writeOutput taken (r.renderNodes stack (built.reverse ++ nodes)) from general []
  intro built
  induction nodes generalizing built with
  | nil => simp
  | cons n others ih =>
    rw [List.foldl_cons, ih, renderNodes_append, writeOutput_andThen, writeOutput_push r stack taken seamless,
      ← writeOutput_andThen, ← renderNodes_append, List.append_assoc, List.singleton_append]

end Renderer

/-- Statements and nodes are in normal form, and joining the texts of nodes does not change what is rendered: neither
the result, nor what a sink has taken at the end. -/
theorem texts_in_normal_form :
    (∀ source indent stmts, Statement.ofSource source indent = .ok stmts → NormalForm stmts) ∧
      (∀ (c : Compiler) entry p s, c.compileEntry entry = .ok p s → NormalForm p.nodes) ∧
      ∀ (r : Renderer) (name : String) (nodes : List Node),
        (∀ model, r.render ⟨name, (nodes.foldl Node.push []).reverse⟩ model = r.render ⟨name, nodes⟩ model) ∧
          ∀ (σ : Type) (sink : Sink σ), sink.Seamless → ∀ stack taken,
            sink.writeOutput taken (r.renderNodes stack (nodes.foldl Node.push []).reverse) =
              sink.writeOutput taken (r.renderNodes stack nodes) := by
  refine ⟨fun _ _ _ => normal_of_ofSource, fun _ _ _ _ => normal_of_entry, fun r name nodes => ⟨fun model => ?_, ?_⟩⟩
  · have same := r.writeOutput_joined [model] "" Sink.seamless_text nodes
    simp only [Renderer.render, Renderer.renderInto, Renderer.output, same]
  · exact fun _ _ seamless stack taken => r.writeOutput_joined stack taken seamless nodes

open Compiler

/-- Texts come together where a comment is dropped and, in the body of a lambda, around a block of an included template. -/
def mergedSource : String :=
  "a" ++ tagText "!" ++ "b" ++ tagText "#up" ++ tagText ">p" ++ "z" ++ tagText "/up"

def mergedStatements : List Statement :=
  [.text "ab", .sect "up" false [.inclusion "p" "" ⟨1, 15⟩, .text "z"] ⟨1, 8⟩]

def mergingCompiler : Compiler where
  loader := .ofDictionary []
  partials := [("p", .inline ("x" ++ tagText "$b" ++ "y" ++ tagText "/b"))]
  lambdas := ["up"]

def mergedProgram : Program := ⟨"main", [.text "ab", .lambda "up" [.text "xyz"]]⟩

theorem merged_in_normal_form :
    Statement.ofSource mergedSource "" = .ok mergedStatements ∧ NormalForm mergedStatements ∧
      (∃ s, mergingCompiler.compileEntry (.source mergedSource "main") = .ok mergedProgram s) ∧
      NormalForm mergedProgram.nodes ∧ Sink.text.Seamless ∧ ∀ (r : Renderer) stack taken,
        Sink.text.writeOutput taken (r.renderNodes stack [.text "xyz"]) =
          Sink.text.writeOutput taken (r.renderNodes stack [.text "x", .text "y", .text "z"]) := by
  obtain ⟨of_source, of_entry, joined⟩ := texts_in_normal_form
  have parsed : Statement.ofSource mergedSource "" = .ok mergedStatements := by cbv
  have compiled : ∃ s, mergingCompiler.compileEntry (.source mergedSource "main") = .ok mergedProgram s :=
    exists_of_program? (by cbv)
  refine ⟨parsed, of_source _ _ _ parsed, compiled, ?_, Sink.seamless_text, fun r => ?_⟩
  · obtain ⟨s, compiled⟩ := compiled
    exact of_entry _ _ _ s compiled
  · exact (joined r "main" [.text "x", .text "y", .text "z"]).2 _ _ Sink.seamless_text

end Mustache

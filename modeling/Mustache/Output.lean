import Mustache.RenderError
import Mustache.Text

/-!
# Outputs

An output is a sequence of pieces, and the error that ends it. A sink takes the pieces one by one and
may refuse; then nothing more is offered to it.
-/

namespace Mustache

/-- The pieces of an output in order, and what ended it early. -/
structure Output where
  pieces : List String := []
  failure : Option RenderError := none
deriving DecidableEq, Repr

namespace Output

/-- An output after which another goes on, unless it ended early. -/
def andThen (a b : Output) : Output :=
  match a.failure with
  | some _ => a
  | none => { pieces := a.pieces ++ b.pieces, failure := b.failure }

def concat (outputs : List Output) : Output := outputs.foldr andThen {}

def text (o : Output) : String := String.join o.pieces

theorem andThen_assoc (a b c : Output) : (a.andThen b).andThen c = a.andThen (b.andThen c) := by
  obtain ⟨as, _ | e⟩ := a
  · obtain ⟨bs, _ | e⟩ := b <;> simp [andThen]
  · rfl

end Output

/-! ## Sinks -/

/-- Takes pieces; the state of a sink is what it has taken. -/
structure Sink (σ : Type) where
  write : σ → String → σ × Option RenderError

namespace Sink

variable {σ : Type}

/-- Writes pieces until one is refused. -/
def writeAll (sink : Sink σ) (taken : σ) : List String → σ × Option RenderError
  | [] => (taken, none)
  | piece :: r =>
    match sink.write taken piece with
    | (taken, none) => writeAll sink taken r
    | refused => refused

/-- Writes an output; its own error comes after all of its pieces. -/
def writeOutput (sink : Sink σ) (taken : σ) (o : Output) : σ × Option RenderError :=
  match sink.writeAll taken o.pieces with
  | (taken, none) => (taken, o.failure)
  | refused => refused

/-- A text that grows. -/
def text : Sink String where
  write taken piece := (taken ++ piece, none)

def encode (piece : String) : List UInt8 := piece.toUTF8.data.toList

/-- Room for so many bytes: takes of a piece what fits, and the rest is an error. -/
def bytes (room : Nat) : Sink (List UInt8) where
  write taken piece :=
    let all := taken ++ encode piece
    if all.length ≤ room then (all, none) else (all.take room, some (.system .nothingWritten))

/-- Room for so many bytes: takes a piece as a whole or not at all. -/
def wholePieces (room : Nat) : Sink String where
  write taken piece :=
    if taken.utf8ByteSize + piece.utf8ByteSize ≤ room then (taken ++ piece, none) else (taken, some .refused)

end Sink
end Mustache

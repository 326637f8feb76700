import Mustache.Position
import Mustache.Text

/-!
# Errors of models

Why something is not a model: a reason, and possibly the place of a text at which it was found. A
message may name the place at its end, and is then read back as both.
-/

namespace Mustache
open Text

/-- Why something cannot be turned into a value. -/
structure ModelError where
  reason : String
  place : Option Position := none
deriving DecidableEq, Repr

namespace ModelError

def beforeLine : String := " at line "

def beforeColumn : String := " column "

/-- The place that is written as a line and a column with the words between them. -/
def placeOf? (cs : List Char) : Option Position := do
  let column ← beforeColumn.toList.isPrefixOf? (cs.dropWhile Char.isDigit)
  return { line := ← number? (cs.takeWhile Char.isDigit), column := ← number? column }

/-- The error that a message stands for. A place on line zero is no place. -/
def ofMessage (message : String) : ModelError :=
  let read := do
    let (reason, place) ← breakOnLast beforeLine.toList message.toList
    return (String.ofList reason, ← placeOf? place)
  match read with
  | none => { reason := message }
  | some (reason, place) => { reason, place := if place.line = 0 then none else some place }

def message (e : ModelError) : String :=
  match e.place with
  | none => e.reason
  | some p => e.reason ++ beforeLine ++ toString p.line ++ beforeColumn ++ toString p.column

/-- A place is written anew, line zero is left out, and what is not quite a place is a part of the reason. -/
example : ["x at line 07 column 1", "x at line 0 column 1", "x at line 1 column "].map (message <| ofMessage ·) =
    ["x at line 7 column 1", "x", "x at line 1 column "] := by decide +kernel

end ModelError
end Mustache

import Mustache.Text

/-!
# Delimiters

The pair of markers between which tags are written. A marker is not empty and holds no blank and
no equals sign, so that a tag which changes the delimiters can be read back.
-/

namespace Mustache
open Text

/-- What may serve as a marker of a tag. -/
def ValidMarker (marker : String) : Prop :=
  marker.toList ≠ [] ∧ ∀ c ∈ marker.toList, isBlank c = false ∧ c ≠ '='

instance (marker : String) : Decidable (ValidMarker marker) :=
  @instDecidableAnd _ _ inferInstance (List.decidableBAll _ _)

structure Delimiters where
  opening : String := "\x7b\x7b"
  closing : String := "\x7d\x7d"
  opening_valid : ValidMarker opening := by decide
  closing_valid : ValidMarker closing := by decide
deriving DecidableEq

namespace Delimiters

/-- Double braces, in force where no tag has changed them. -/
def standard : Delimiters := {}

instance : Inhabited Delimiters := ⟨standard⟩

/-- The pair of two texts, when both may serve as markers. -/
def make? (opening closing : String) : Option Delimiters :=
  if valid : ValidMarker opening ∧ ValidMarker closing then
    some { opening, closing, opening_valid := valid.1, closing_valid := valid.2 }
  else none

/-- The pair that stands between the equals signs of a tag: two words that may serve as markers. -/
def read? (markers : List Char) : Option Delimiters :=
  match words markers with
  | [opening, closing] => make? (String.ofList opening) (String.ofList closing)
  | _ => none

/-- A pair is shown with one space between its markers. -/
def describe (d : Delimiters) : String := d.opening ++ " " ++ d.closing

/-- The tag, written with the standard delimiters, after which a pair is in force. -/
def restoringTag (d : Delimiters) : String := "\x7b\x7b=" ++ d.describe ++ "=\x7d\x7d"

theorem make?_self (d : Delimiters) : make? d.opening d.closing = some d := by
  simp [make?, d.opening_valid, d.closing_valid]

end Delimiters
end Mustache

/-!
# Texts

Texts are read as lists of characters. What is left out by trimming is blank, a search finds the
first occurrence and loses nothing (`breakOn_eq`), and the places between characters are counted
in bytes of the UTF-8 encoding (`takeBytes_append_dropBytes`).
-/

namespace Mustache.Text

/-! ## Blanks -/

/-- Exact code points of the Unicode property White_Space, as ranges with both ends included. -/
def blankRanges : List (Nat × Nat) :=
  [(0x09, 0x0D), (0x20, 0x20), (0x85, 0x85), (0xA0, 0xA0), (0x1680, 0x1680), (0x2000, 0x200A),
    (0x2028, 0x2029), (0x202F, 0x202F), (0x205F, 0x205F), (0x3000, 0x3000)]

def inRanges (ranges : List (Nat × Nat)) (code : Nat) : Bool :=
  ranges.any fun range => range.1 ≤ code && code ≤ range.2

def isBlank (c : Char) : Bool := inRanges blankRanges c.toNat

/-- The blank property holds of 25 characters. -/
example : (blankRanges.map fun range => range.2 + 1 - range.1).sum = 25 := by decide

def trimStart (cs : List Char) : List Char := cs.dropWhile isBlank

def trimEnd (cs : List Char) : List Char := (cs.reverse.dropWhile isBlank).reverse

def trim (cs : List Char) : List Char := trimEnd (trimStart cs)

/-! ## Pieces -/

/-- The pieces of a text between the characters of a class; there is always at least one. -/
def split (stop : Char → Bool) : List Char → List (List Char)
  | [] => [[]]
  | c :: r => if stop c then [] :: split stop r else (split stop r).modifyHead (c :: ·)

def words (cs : List Char) : List (List Char) := (split isBlank cs).filter (!·.isEmpty)

/-- What stands before and after the first occurrence of a pattern. -/
def breakOn (pattern : List Char) : List Char → Option (List Char × List Char)
  | [] => if pattern.isEmpty then some ([], []) else none
  | c :: r =>
    match pattern.isPrefixOf? (c :: r) with
    | some after => some ([], after)
    | none => (breakOn pattern r).map fun found => (c :: found.1, found.2)

theorem isPrefixOf?_cons (p c : Char) (ps r : List Char) :
    (p :: ps).isPrefixOf? (c :: r) = if p = c then ps.isPrefixOf? r else none := by
  show (if p == c then ps.isPrefixOf? r else none) = _
  simp only [beq_iff_eq]

theorem append_of_isPrefixOf? {pattern cs after : List Char} (found : pattern.isPrefixOf? cs = some after) :
    pattern ++ after = cs := by
  induction pattern generalizing cs with
  | nil => exact (Option.some.inj found).symm
  | cons p ps ih =>
    cases cs with
    | nil => cases found
    | cons c r =>
      rw [isPrefixOf?_cons] at found
      by_cases same : p = c
      · rw [if_pos same] at found
        rw [List.cons_append, ih found, same]
      · simp [same] at found

/-- A search cuts the text at the pattern and loses nothing. -/
theorem breakOn_eq {pattern cs before after : List Char} (found : breakOn pattern cs = some (before, after)) :
    cs = before ++ pattern ++ after := by
  induction cs generalizing before with
  | nil =>
    rw [breakOn] at found
    split at found
    · next empty =>
      obtain ⟨rfl, rfl⟩ : [] = before ∧ [] = after := by simpa using found
      simpa using empty
    · simp at found
  | cons c r ih =>
    rw [breakOn] at found
    split at found
    · next rest here =>
      obtain ⟨rfl, rfl⟩ : [] = before ∧ rest = after := by simpa using found
      simp [append_of_isPrefixOf? here]
    · obtain ⟨⟨b, a⟩, later, same⟩ := Option.map_eq_some_iff.1 found
      obtain ⟨rfl, rfl⟩ : c :: b = before ∧ a = after := by simpa using same
      simp [ih later]

/-- What stands before and after the last occurrence of a pattern. -/
def breakOnLast (pattern cs : List Char) : Option (List Char × List Char) :=
  (breakOn pattern.reverse cs.reverse).map fun found => (found.2.reverse, found.1.reverse)

/-- The text after all repetitions of a pattern at its beginning. -/
def dropRepeats (pattern cs : List Char) : List Char :=
  match pattern.isPrefixOf? cs with
  | none => cs
  | some after => if after.length < cs.length then dropRepeats pattern after else cs
termination_by cs.length

/-! ## Lengths in bytes -/

def bytes : List Char → Nat
  | [] => 0
  | c :: r => c.utf8Size + bytes r

/-- The characters that begin before a byte offset. -/
def takeBytes : Nat → List Char → List Char
  | _, [] => []
  | n, c :: r => if n = 0 then [] else c :: takeBytes (n - c.utf8Size) r

/-- The characters that begin at a byte offset or after it. -/
def dropBytes : Nat → List Char → List Char
  | _, [] => []
  | n, c :: r => if n = 0 then c :: r else dropBytes (n - c.utf8Size) r

theorem bytes_append (a b : List Char) : bytes (a ++ b) = bytes a + bytes b := by
  induction a with
  | nil => simp [bytes]
  | cons c r ih => simp [bytes, ih, Nat.add_assoc]

/-- Cutting at an offset loses nothing. -/
theorem takeBytes_append_dropBytes (n : Nat) (cs : List Char) : takeBytes n cs ++ dropBytes n cs = cs := by
  induction cs generalizing n with
  | nil => rfl
  | cons c r ih => by_cases zero : n = 0 <;> simp [takeBytes, dropBytes, zero, ih]

/-- The part of a text from one byte offset to another. -/
def slice (cs : List Char) (start stop : Nat) : List Char :=
  takeBytes (stop - start) (dropBytes start cs)

/-! ## Numbers and indices -/

def decimal (digits : List Char) : Nat :=
  digits.foldl (fun value c => 10 * value + (c.toNat - '0'.toNat)) 0

/-- A number is written as decimal digits alone, and fits in 64 bits. -/
def number? (digits : List Char) : Option Nat :=
  if digits ≠ [] ∧ digits.all Char.isDigit ∧ decimal digits < Nat.pow 2 64 then some (decimal digits) else none

/-- An index is a number with at most one plus sign before it. -/
def index? : List Char → Option Nat
  | '+' :: r => number? r
  | cs => number? cs

end Mustache.Text

import Mustache.Value

/-!
# Reading JSON

The value that a JSON text stands for; a text that is not JSON has none. Each step takes one from a
supply that the length of the text provides in advance.
-/

namespace Mustache.Value.Reader
open Text

def skip (cs : List Char) : List Char := cs.dropWhile fun c => c = ' ' || c = '\n' || c = '\r' || c = '\t'

def hexValue? (c : Char) : Option Nat :=
  if c.isDigit then some (c.toNat - '0'.toNat)
  else if 'a' ≤ c ∧ c ≤ 'f' then some (c.toNat - 'a'.toNat + 10)
  else if 'A' ≤ c ∧ c ≤ 'F' then some (c.toNat - 'A'.toNat + 10)
  else none

def hex4? (a b c d : Char) : Option Nat := do
  let digits ← [a, b, c, d].mapM hexValue?
  some (digits.foldl (fun n digit => 16 * n + digit) 0)

/-- The character that a letter after a backslash stands for. -/
def unescape? : Char → Option Char
  | '"' => some '"'
  | '\\' => some '\\'
  | '/' => some '/'
  | 'b' => some '\x08'
  | 'f' => some '\x0c'
  | 'n' => some '\n'
  | 'r' => some '\r'
  | 't' => some '\t'
  | _ => none

/-- The content of a text up to its closing quote, and what follows. Characters beyond 16 bits may
be written as a pair of surrogates. -/
def text? : List Char → Option (List Char × List Char)
  | [] => none
  | '"' :: r => some ([], r)
  | '\\' :: 'u' :: a :: b :: c :: d :: r =>
    match hex4? a b c d with
    | none => none
    | some code =>
      if 0xD800 ≤ code ∧ code < 0xDC00 then
        match r with
        | '\\' :: 'u' :: e :: f :: g :: h :: s =>
          match hex4? e f g h with
          | some low =>
            if 0xDC00 ≤ low ∧ low < 0xE000 then
              (text? s).map fun found =>
                (Char.ofNat (0x10000 + (code - 0xD800) * 0x400 + (low - 0xDC00)) :: found.1, found.2)
            else none
          | none => none
        | _ => none
      else if 0xDC00 ≤ code ∧ code < 0xE000 then none
      else (text? r).map fun found => (Char.ofNat code :: found.1, found.2)
  | '\\' :: c :: r =>
    match unescape? c with
    | none => none
    | some c => (text? r).map fun found => (c :: found.1, found.2)
  | c :: r => if c.toNat < 0x20 then none else (text? r).map fun found => (c :: found.1, found.2)

/-- The digits at the beginning of a text, and what follows. -/
def digits (cs : List Char) : List Char × List Char := (cs.takeWhile Char.isDigit, cs.dropWhile Char.isDigit)

/-- The exponent of a literal, and what follows. -/
def exponent? : List Char → Option (Int × List Char)
  | e :: r =>
    if e = 'e' ∨ e = 'E' then
      let (negative, r) := match r with
        | '-' :: s => (true, s)
        | '+' :: s => (false, s)
        | _ => (false, r)
      let (ds, r) := digits r
      if ds.isEmpty then none else some (if negative then -(decimal ds : Int) else decimal ds, r)
    else some (0, e :: r)
  | [] => some (0, [])

def number? (cs : List Char) : Option (Number × List Char) := do
  let (negative, cs) := match cs with
    | '-' :: r => (true, r)
    | _ => (false, cs)
  let (whole, afterWhole) := digits cs
  if whole.isEmpty ∨ (whole.head? = some '0' ∧ whole.length > 1) then none
  let (fraction, afterFraction) ← match afterWhole with
    | '.' :: r =>
      let (ds, r) := digits r
      if ds.isEmpty then none else some (ds, r)
    | _ => some ([], afterWhole)
  let (exponent, rest) ← exponent? afterFraction
  let isWhole := rest.length = afterWhole.length
  let n ← Number.ofLiteral { negative, whole, fraction, exponent, isWhole }
  some (n, rest)

mutual
def value? : Nat → List Char → Option (Value × List Char)
  | 0, _ => none
  | supply + 1, cs =>
    match skip cs with
    | 'n' :: 'u' :: 'l' :: 'l' :: r => some (.null, r)
    | 't' :: 'r' :: 'u' :: 'e' :: r => some (.boolean true, r)
    | 'f' :: 'a' :: 'l' :: 's' :: 'e' :: r => some (.boolean false, r)
    | '"' :: r => (text? r).map fun found => (.text (String.ofList found.1), found.2)
    | '[' :: r =>
      match skip r with
      | ']' :: r => some (.array [], r)
      | _ => (items? supply r).map fun found => (.array found.1, found.2)
    | '\x7b' :: r =>
      match skip r with
      | '\x7d' :: r => some (.object [], r)
      | _ => (fields? supply r).map fun found => (.object (Dictionary.ofList found.1), found.2)
    | cs => (number? cs).map fun found => (.number found.1, found.2)

def items? : Nat → List Char → Option (List Value × List Char)
  | 0, _ => none
  | supply + 1, cs => do
    let (item, rest) ← value? supply cs
    match skip rest with
    | ',' :: r => (items? supply r).map fun found => (item :: found.1, found.2)
    | ']' :: r => some ([item], r)
    | _ => none

/-- The fields of an object up to its closing brace, and what follows. -/
def fields? : Nat → List Char → Option (List (String × Value) × List Char)
  | 0, _ => none
  | supply + 1, cs =>
    match skip cs with
    | '"' :: r => do
      let (name, rest) ← text? r
      match skip rest with
      | ':' :: r => do
        let (value, rest) ← value? supply r
        let field := (String.ofList name, value)
        match skip rest with
        | ',' :: r => (fields? supply r).map fun found => (field :: found.1, found.2)
        | '\x7d' :: r => some ([field], r)
        | _ => none
      | _ => none
    | _ => none
end

end Reader

def ofJson? (content : String) : Option Value := do
  let cs := content.toList
  let (value, rest) ← Reader.value? (2 * cs.length + 1) cs
  if (Reader.skip rest).isEmpty then some value else none

end Mustache.Value

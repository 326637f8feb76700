import Mustache.Value

/-!
# The JSON text of a value

Without spaces, with the fields of an object in the order of its dictionary.
-/

namespace Mustache.Value

def hexDigit (n : Nat) : Char := Nat.digitChar (n % 16)

/-- A character inside quotes: quotes, backslashes and control characters are escaped. -/
def quoteChar (c : Char) : List Char :=
  match c with
  | '"' => ['\\', '"']
  | '\\' => ['\\', '\\']
  | '\n' => ['\\', 'n']
  | '\r' => ['\\', 'r']
  | '\t' => ['\\', 't']
  | '\x08' => ['\\', 'b']
  | '\x0c' => ['\\', 'f']
  | c => if c.toNat < 0x20 then ['\\', 'u', '0', '0', hexDigit (c.toNat / 16), hexDigit c.toNat] else [c]

def quote (content : String) : String := "\"" ++ String.ofList (content.toList.flatMap quoteChar) ++ "\""

mutual
def toJson : Value → String
  | .null => "null"
  | .boolean true => "true"
  | .boolean false => "false"
  | .number n => n.text .json
  | .text content => quote content
  | .array items => "[" ++ ",".intercalate (itemsJson items) ++ "]"
  | .object fields => "\x7b" ++ ",".intercalate (fieldsJson fields) ++ "\x7d"

def itemsJson : List Value → List String
  | [] => []
  | item :: r => toJson item :: itemsJson r

def fieldsJson : List (String × Value) → List String
  | [] => []
  | (name, value) :: r => (quote name ++ ":" ++ toJson value) :: fieldsJson r
end

end Mustache.Value

import Mustache.Program
import Mustache.Text.Visible

/-!
# Programs as code

A program as the expression that builds it: a sequence of code tokens, and its text.
-/

namespace Mustache
open Text

/-- The brackets around a group of tokens. -/
inductive Bracket where
  | paren
  | square
  | brace
deriving DecidableEq, Repr

inductive CodeToken where
  | word (spelling : String)
  | text (content : String)
  /-- A literal of the type of sizes. -/
  | size (value : Nat)
  | group (bracket : Bracket) (inner : List CodeToken)
deriving Repr

namespace CodeToken

/-! ## The text of code -/

/-- The hexadecimal escape of a character. -/
def unicodeEscape (c : Char) : List Char :=
  '\\' :: 'u' :: '\x7b' :: (Nat.toDigits 16 c.toNat) ++ ['\x7d']

/-- The characters of a string literal. A null before an octal digit is not written as an octal
escape; single quotes need no escape. -/
def literalChars : List Char → List Char
  | [] => []
  | c :: r =>
    let shown :=
      if c = '\x00' then
        if r.head?.any fun d => '0' ≤ d && d ≤ '7' then ['\\', 'x', '0', '0'] else ['\\', '0']
      else if c = '\t' then ['\\', 't']
      else if c = '\r' then ['\\', 'r']
      else if c = '\n' then ['\\', 'n']
      else if c = '\\' ∨ c = '"' then ['\\', c]
      else if isVisible c then [c]
      else unicodeEscape c
    shown ++ literalChars r

/-- A group of tokens, given their text. Only braces are kept apart from what they hold. -/
def bracketed : Bracket → String → String
  | .paren, inner => "(" ++ inner ++ ")"
  | .square, inner => "[" ++ inner ++ "]"
  | .brace, inner => if inner = "" then "\x7b \x7d" else "\x7b " ++ inner ++ " \x7d"

mutual
def textOf : CodeToken → String
  | .word spelling => spelling
  | .text content => "\"" ++ String.ofList (literalChars content.toList) ++ "\""
  | .size value => toString value ++ "usize"
  | .group bracket inner => bracketed bracket (" ".intercalate (textsOf inner))

def textsOf : List CodeToken → List String
  | [] => []
  | t :: r => textOf t :: textsOf r
end

/-- The text of code: its tokens with a space between them. -/
def code (tokens : List CodeToken) : String := " ".intercalate (textsOf tokens)

end CodeToken

/-! ## The code of programs -/

namespace Code
open CodeToken

def words (spellings : List String) : List CodeToken := spellings.map .word

/-- A path from the root of all names. -/
def path (names : List String) : List CodeToken := names.flatMap fun name => [.word "::", .word name]

/-- Tokens with a comma between one part and the next. -/
def commas (parts : List (List CodeToken)) : List CodeToken := List.intercalate [.word ","] parts

def list (parts : List (List CodeToken)) : List CodeToken :=
  path ["std", "vec"] ++ [.word "!", .group .square (commas parts)]

def ownedText (content : String) : List CodeToken :=
  path ["std", "convert", "From", "from"] ++ [.group .paren [.text content]]

def field (name : String) (value : List CodeToken) : List CodeToken := .word name :: .word ":" :: value

def kindName : SectionKind → String
  | .iterate => "Iterate"
  | .within => "With"
  | .condition => "Condition"
  | .inverted => "Inverted"
  | .dynamic => "Dynamic"

def ofLookup : Lookup → List CodeToken
  | .current up => path ["stache", "Lookup", "Current"] ++ [.group .brace (field "up" [.size up])]
  | .frame up segments =>
    path ["stache", "Lookup", "Frame"] ++
      [.group .brace (commas [field "up" [.size up], field "path" (list (segments.map ownedText))])]
  | .search up segments =>
    path ["stache", "Lookup", "Search"] ++
      [.group .brace (commas [field "up" [.size up], field "path" (list (segments.map ownedText))])]
  | .missing => path ["stache", "Lookup", "Missing"]

mutual
def ofNode : Node → List CodeToken
  | .text content => path ["stache", "Node", "Text"] ++ [.group .paren (ownedText content)]
  | .interpolation lookup escape =>
    path ["stache", "Node", "Variable"] ++
      [.group .brace (commas [field "lookup" (ofLookup lookup), field "escape" [.word (toString escape)]])]
  | .sect lookup kind body =>
    path ["stache", "Node", "Section"] ++
      [.group .brace (commas [field "lookup" (ofLookup lookup),
        field "kind" (path ["stache", "SectionKind", kindName kind]), field "body" (list (ofNodes body)), []])]
  | .lambda name body =>
    path ["stache", "Node", "Lambda"] ++
      [.group .brace (commas [field "name" (ownedText name), field "body" (list (ofNodes body)), []])]

def ofNodes : List Node → List (List CodeToken)
  | [] => []
  | n :: r => ofNode n :: ofNodes r
end

def ofProgram (p : Program) : List CodeToken :=
  path ["stache", "Program", "new"] ++ [.group .paren (commas [[.text p.name], list (ofNodes p.nodes)])]

/-- A block that gives a program and names the files that it depends on. -/
def ofBuild (files : List String) (p : Program) : List CodeToken :=
  let dependency (file : String) :=
    words ["const", "_", ":", "&", "str", "=", "include_str", "!"] ++ [.group .paren [.text file], .word ";"]
  [.group .brace (files.flatMap dependency ++ ofProgram p)]

end Code
end Mustache

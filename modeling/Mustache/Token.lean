import Mustache.Position
import Mustache.Delimiters

/-!
# Tokens

What a template source consists of: texts without line breaks, line breaks, changes of the
delimiters, and tags; and the faults that end its reading.
-/

namespace Mustache
open Text

inductive LineBreak where
  | lf
  | crlf
deriving DecidableEq, Repr

def LineBreak.text : LineBreak → String
  | .lf => "\n"
  | .crlf => "\r\n"

inductive TagKind where
  | interpolation
  | unescaped
  | sectionStart
  | invertedStart
  /-- The end of a section, a parent or a block. -/
  | scopeEnd
  | inclusion
  | parentStart
  | blockStart
  | comment
deriving DecidableEq, Repr

namespace TagKind

/-- The kind that the first significant character of a tag selects. -/
def ofSigil? : Char → Option TagKind
  | '#' => some .sectionStart
  | '^' => some .invertedStart
  | '/' => some .scopeEnd
  | '>' => some .inclusion
  | '<' => some .parentStart
  | '$' => some .blockStart
  | '!' => some .comment
  | '&' => some .unescaped
  | _ => none

/-- A kind is shown as its sigil, or in words where it has none or several. -/
def describe : TagKind → String
  | .interpolation => "variable"
  | .unescaped => "unescaped variable"
  | .sectionStart => "#"
  | .invertedStart => "^"
  | .scopeEnd => "/"
  | .inclusion => ">"
  | .parentStart => "<"
  | .blockStart => "$"
  | .comment => "!"

/-- Whether a tag of this kind can stand alone on its line: all but the tags that write a value. -/
def standsAlone : TagKind → Bool
  | .interpolation | .unescaped => false
  | _ => true

/-- Whether a tag of this kind opens a scope that an end tag closes. -/
def opensScope : TagKind → Bool
  | .sectionStart | .invertedStart | .parentStart | .blockStart => true
  | _ => false

end TagKind

/-- A token of a template source. -/
inductive Token where
  /-- Static text without a line feed. -/
  | text (content : String)
  | newline (lineBreak : LineBreak)
  /-- A change of the delimiters, from the first pair to the second. -/
  | delimiters (previous next : Delimiters)
  /-- A tag with its sigil left out and its name trimmed; the name of a comment is its body. -/
  | tag (name : String) (kind : TagKind)
deriving DecidableEq

namespace Token

def isBlank : Token → Bool
  | .text content => content.toList.all Text.isBlank
  | _ => false

/-- Tags, and changes of the delimiters, are written between delimiters. -/
def isTag : Token → Bool
  | .delimiters .. | .tag .. => true
  | _ => false

def isNewline : Token → Bool
  | .newline _ => true
  | _ => false

end Token

/-- A token with the source text it was read from and the place where that begins. -/
structure LocatedToken where
  token : Token
  position : Position
  start : Nat
  raw : String
deriving DecidableEq

/-- The byte offset after the last character. -/
def LocatedToken.stop (t : LocatedToken) : Nat := t.start + bytes t.raw.toList

/-! ## Faults -/

/-- A fault that ends the reading of a source, with the position of the faulty tag. -/
inductive SyntaxError where
  | unclosedTag (position : Position) (expected : String)
  | emptyName (position : Position) (kind : TagKind)
  | invalidName (position : Position) (name : String)
  | invalidDelimiters (position : Position) (found : String)
  | unbalancedTriple (position : Position)
  /-- The begin anchor of a fragment inside that fragment. -/
  | nestedFragment (position : Position) (name : String)
deriving DecidableEq, Repr

namespace SyntaxError

def position : SyntaxError → Position
  | .unclosedTag p _ | .emptyName p _ | .invalidName p _ | .invalidDelimiters p _ | .unbalancedTriple p
  | .nestedFragment p _ => p

def reason : SyntaxError → String
  | .unclosedTag _ expected => "unclosed tag, expected `" ++ expected ++ "`"
  | .emptyName _ kind => "`" ++ kind.describe ++ "` tag requires a name"
  | .invalidName _ name => "invalid tag name `" ++ name ++ "`"
  | .invalidDelimiters _ found => "invalid delimiters `" ++ found ++ "`, expected `=<start> <end>=`"
  | .unbalancedTriple _ => "unbalanced triple mustache, expected `\x7d` before closing delimiter"
  | .nestedFragment _ name => "fragment `" ++ name ++ "` begins again before its end anchor"

/-- Every fault is shown with its position in front. -/
def message (e : SyntaxError) : String := e.position.describe ++ ": " ++ e.reason

end SyntaxError
end Mustache

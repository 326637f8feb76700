import Mustache.Line

/-!
# Fragments

A fragment is a part of a source between two comments that name it: `begin:` and the name, then
`end:` and the name. Anchors that stand alone on their lines leave with their lines.
-/

namespace Mustache.Fragment
open Text

def beginAnchor (name : String) : String := "begin:" ++ name

def endAnchor (name : String) : String := "end:" ++ name

/-- Where a fragment begins, and the delimiters in force there. -/
structure Opening where
  offset : Nat
  delimiters : Delimiters

/-- The text of a fragment that begins at an opening and ends before a byte offset. Delimiters
other than the standard ones are restored in front of it. -/
def cut (source : List Char) (o : Opening) (stop : Nat) : String :=
  let text := String.ofList (slice source o.offset stop)
  if o.delimiters = .standard then text else o.delimiters.restoringTag ++ text

/-- Reads on through the tokens of a source, each with its line, until the end anchor of a
fragment that has begun. -/
def search (source : List Char) (name : String) :
    Delimiters → Option Opening → List (Line × LocatedToken) → Except SyntaxError (Option String)
  | _, _, [] => .ok none
  | active, opened, (line, t) :: r =>
    match t.token with
    | .delimiters _ next => search source name next opened r
    | .tag body .comment =>
      if body = beginAnchor name then
        if opened.isSome then .error (.nestedFragment t.position name)
        else search source name active (some ⟨if line.standalone then line.stop else t.stop, active⟩) r
      else if body = endAnchor name then
        match opened with
        | none => search source name active none r
        | some o => .ok (some (cut source o (if line.standalone then line.start else t.start)))
      else search source name active opened r
    | _ => search source name active opened r

/-- The text of a fragment of a source; there is none if an anchor is missing. What follows the
end anchor's line is not read. -/
def extract (source name : String) : Except SyntaxError (Option String) :=
  let read := layout source
  match search source.toList name .standard none (read.lines.flatMap fun line => line.tokens.map (line, ·)) with
  | .ok none =>
    match read.failure with
    | some e => .error e
    | none => .ok none
  | found => found

end Mustache.Fragment

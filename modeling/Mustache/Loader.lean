import Mustache.Dictionary
import Mustache.SystemError

/-!
# Loaders

What gives the texts of templates by their paths.
-/

namespace Mustache

/-- Gives the text at a path, or tells why there is none. -/
abbrev Loader := String → Except SystemError String

def Loader.ofDictionary (templates : List (String × String)) : Loader := fun path =>
  match Dictionary.find? path templates with
  | some text => .ok text
  | none => .error ⟨.notFound, "no template `" ++ path ++ "`"⟩

theorem Loader.ofDictionary_eq_ok {templates : List (String × String)} {path text : String} :
    Loader.ofDictionary templates path = .ok text ↔ Dictionary.find? path templates = some text := by
  unfold Loader.ofDictionary
  cases Dictionary.find? path templates <;> simp

end Mustache

/-!
# System errors

What can go wrong outside the templates: a text that cannot be loaded, an output that takes no more.
-/

namespace Mustache

inductive SystemErrorKind where
  | notFound
  | permissionDenied
  | invalidInput
  | invalidData
  | isADirectory
  | notADirectory
  | writeZero
  | other
deriving DecidableEq, Repr

structure SystemError where
  kind : SystemErrorKind
  message : String
deriving DecidableEq, Repr

namespace SystemError

def noSuchFile : SystemError := ⟨.notFound, "No such file or directory (os error 2)"⟩
def directoryRead : SystemError := ⟨.isADirectory, "Is a directory (os error 21)"⟩
def fileEntered : SystemError := ⟨.notADirectory, "Not a directory (os error 20)"⟩
def notText : SystemError := ⟨.invalidData, "stream did not contain valid UTF-8"⟩
def nulInName : SystemError := ⟨.invalidInput, "file name contained an unexpected NUL byte"⟩
def nothingWritten : SystemError := ⟨.writeZero, "failed to write whole buffer"⟩

end SystemError
end Mustache

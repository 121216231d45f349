/-!
# Texts of files

What reading a file gives: its text, or why there is none. Files are UTF-8 throughout.
-/

namespace JarPlan

inductive ReadError where
  | notFound
  | isDirectory
  | notUtf8
  /-- Any other failure, in the words of the system. -/
  | other (reason : String)
deriving DecidableEq

def ReadError.message : ReadError → String
  | notFound => "No such file or directory (os error 2)"
  | isDirectory => "Is a directory (os error 21)"
  | notUtf8 => "stream did not contain valid UTF-8"
  | other reason => reason

abbrev FileText := Except ReadError String

/-- The text of a file with the given bytes. -/
def FileText.ofBytes (bytes : List UInt8) : FileText :=
  match String.fromUTF8? ⟨bytes.toArray⟩ with
  | some text => .ok text
  | none => .error .notUtf8

end JarPlan

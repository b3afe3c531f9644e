/-!
# SchemaCatalog.Files.Fault

Why a file or directory cannot be read or written, in the operating system's words.
-/

namespace SchemaCatalog.Files

/-- Why a path cannot be read or written. -/
inductive Fault
  | absent
  | notADirectory
  | isADirectory
  /-- A name of more than 255 bytes, or a path of more than 4095. -/
  | nameTooLong
  /-- A path with a character that no path can hold. -/
  | nulInPath
  /-- The content is not UTF-8. -/
  | notText
  deriving DecidableEq, Repr

def Fault.message : Fault → String
  | absent => "No such file or directory (os error 2)"
  | notADirectory => "Not a directory (os error 20)"
  | isADirectory => "Is a directory (os error 21)"
  | nameTooLong => "File name too long (os error 36)"
  | nulInPath => "file name contained an unexpected NUL byte"
  | notText => "stream did not contain valid UTF-8"

end SchemaCatalog.Files

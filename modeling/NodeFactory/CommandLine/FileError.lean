/-!
# File errors

Why a file cannot be read or written.
-/

namespace NodeFactory

inductive FileError where
  | notFound
  | alreadyExists
  | notADirectory
  | isADirectory
  | notText
  /-- Any other reason, in the words of the system. -/
  | other (reason : String)
deriving DecidableEq, Repr

def FileError.message : FileError → String
  | notFound => "No such file or directory (os error 2)"
  | alreadyExists => "File exists (os error 17)"
  | notADirectory => "Not a directory (os error 20)"
  | isADirectory => "Is a directory (os error 21)"
  | notText => "stream did not contain valid UTF-8"
  | other reason => reason

end NodeFactory

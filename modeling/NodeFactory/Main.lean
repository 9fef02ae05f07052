import NodeFactory.CommandLine.Run

/-!
# The program

The commands of `NodeFactory.Command`, run on the files of the system.
-/

namespace NodeFactory

def FileError.ofSystem : IO.Error → FileError
  | .noFileOrDirectory .. | .noSuchThing .. => .notFound
  | .alreadyExists .. => .alreadyExists
  | .inappropriateType _ code details =>
    if code.toNat = 20 then .notADirectory
    else if code.toNat = 21 then .isADirectory
    else .other details
  | error => .other (toString error)

/-- The files of the system. -/
def systemStore : FileStore IO where
  readText path := do
    let content ← attempt (IO.FS.readBinFile path)
    match String.fromUTF8? content with
    | some text => return text
    | none => throw .notText
  writeText path text := attempt (IO.FS.writeFile path text)
  makeDirectory path := attempt (IO.FS.createDir path)
  isDirectory path := do
    match ← (attempt (IO.FS.readBinFile path)).run with
    | .error .isADirectory => return true
    | _ => return false
where
  attempt {α : Type} (action : IO α) : ExceptT FileError IO α :=
    ExceptT.mk do
      try return .ok (← action) catch error => return .error (.ofSystem error)

end NodeFactory

def main (arguments : List String) : IO UInt32 := do
  let report := (← NodeFactory.Command.run NodeFactory.systemStore arguments).report
  (← IO.getStdout).putStr report.stdout
  (← IO.getStderr).putStr report.stderr
  return UInt32.ofNat report.exitCode

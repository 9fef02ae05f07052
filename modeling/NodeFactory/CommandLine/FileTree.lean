import NodeFactory.CommandLine.FileStore

/-!
# File trees

A file tree holds files and directories by their paths from its root. A path in an operation is
walked step by step: every step but the last leads into a directory that is there, `.` stays and
`..` goes back.
-/

namespace NodeFactory

inductive FileEntry where
  | directory
  | file (content : ByteArray)

/-- Entries by their paths; the root is a directory without an entry. -/
structure FileTree where
  entries : List (List String × FileEntry)

namespace FileTree

def find? (tree : FileTree) (path : List String) : Option FileEntry :=
  if path.isEmpty then some .directory else tree.entries.lookup path

def insert (tree : FileTree) (path : List String) (entry : FileEntry) : FileTree :=
  ⟨(path, entry) :: tree.entries.filter fun other => other.1 != path⟩

/-- The directory that steps lead to. -/
def walk (tree : FileTree) (here : List String) : List String → Except FileError (List String)
  | [] => .ok here
  | step :: steps =>
    if step = "." then tree.walk here steps
    else if step = ".." then tree.walk here.dropLast steps
    else
      match tree.find? (here ++ [step]) with
      | some .directory => tree.walk (here ++ [step]) steps
      | some (.file _) => .error .notADirectory
      | none => .error .notFound

/-- What is at the end of a path. -/
inductive Place where
  | directory (path : List String)
  | file (path : List String) (content : ByteArray)
  /-- Nothing, in a directory that is there. -/
  | vacant (path : List String)

/-- A path taken apart: its steps, and whether it ends in a slash. -/
def steps (path : String) : List String × Bool :=
  ((path.splitOn "/").filter (· != ""), path.endsWith "/")

def locate (tree : FileTree) (path : String) : Except FileError Place := do
  if path = "" then throw .notFound
  let steps := (steps path).1
  match steps.getLast? with
  | none => return .directory []
  | some last =>
    if last = "." ∨ last = ".." then return .directory (← tree.walk [] steps)
    else
      let path := (← tree.walk [] steps.dropLast) ++ [last]
      match tree.find? path with
      | some .directory => return .directory path
      | some (.file content) => return .file path content
      | none => return .vacant path

def isDirectory (tree : FileTree) (path : String) : Bool :=
  match tree.locate path with
  | .ok (.directory _) => true
  | _ => false

def readText (tree : FileTree) (path : String) : Except FileError String := do
  match ← tree.locate path with
  | .directory _ => throw .isADirectory
  | .file _ content =>
    if (steps path).2 then throw .notADirectory
    match String.fromUTF8? content with
    | some text => return text
    | none => throw .notText
  | .vacant _ => throw .notFound

def writeText (tree : FileTree) (path text : String) : Except FileError FileTree := do
  match ← tree.locate path with
  | .directory _ => throw .isADirectory
  | .file path' _ | .vacant path' =>
    if (steps path).2 then throw .isADirectory
    return tree.insert path' (.file text.toUTF8)

def makeDirectory (tree : FileTree) (path : String) : Except FileError FileTree := do
  match ← tree.locate path with
  | .directory _ | .file .. => throw .alreadyExists
  | .vacant path => return tree.insert path .directory

/-- Access to the files of a tree. -/
def store : FileStore (StateM FileTree) where
  readText path := do ofExcept ((← get).readText path)
  writeText path text := do set (← ofExcept ((← get).writeText path text))
  makeDirectory path := do set (← ofExcept ((← get).makeDirectory path))
  isDirectory path := return (← get).isDirectory path

end FileTree

end NodeFactory

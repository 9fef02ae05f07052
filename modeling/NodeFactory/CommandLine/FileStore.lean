import NodeFactory.CommandLine.FileError

/-!
# File stores

A file store gives access to files: it reads and writes whole texts, and makes directories one at a
time. `makeDirectories` makes a directory together with those that it lies in; it ends because the
path of a directory is longer than that of the one it lies in (`length_lt_of_parent?_eq_some`).
-/

namespace NodeFactory

/-- Access to files. -/
structure FileStore (m : Type → Type) where
  readText : String → ExceptT FileError m String
  writeText : String → String → ExceptT FileError m Unit
  makeDirectory : String → ExceptT FileError m Unit
  isDirectory : String → m Bool

namespace FileStore

/-- A path, from its end, without slashes and steps to the same place at the end. -/
def trimReversed : List Char → List Char
  | ['/'] => ['/']
  | '/' :: rest => trimReversed rest
  | '.' :: '/' :: rest => trimReversed ('/' :: rest)
  | path => path

/-- The path without its last step; a path without steps has none. -/
def parent? (path : String) : Option String :=
  match trimReversed path.toList.reverse with
  | [] | ['/'] => none
  | _ :: rest => some (String.ofList (trimReversed (rest.dropWhile (· != '/'))).reverse)

theorem length_trimReversed_le (path : List Char) :
    (trimReversed path).length ≤ path.length := by
  fun_induction trimReversed path with
  | case1 | case4 => exact Nat.le_refl _
  | case2 rest _ ih => exact Nat.le_succ_of_le ih
  | case3 rest ih => exact Nat.le_succ_of_le ih

theorem length_lt_of_parent?_eq_some {path parent : String} (h : parent? path = some parent) :
    parent.length < path.length := by
  have trim_le := length_trimReversed_le path.toList.reverse
  unfold parent? at h
  split at h
  · contradiction
  · contradiction
  next rest _ heq =>
    obtain rfl := Option.some.inj h
    rw [heq] at trim_le
    have := length_trimReversed_le (rest.dropWhile (· != '/'))
    have := (List.dropWhile_sublist (l := rest) (· != '/')).length_le
    simp only [List.length_cons, List.length_reverse, String.length_toList,
      String.length_ofList] at *
    omega

variable {m : Type → Type} [Monad m]

/-- Makes a directory where nothing is; a directory that is there will do. -/
def ensureDirectory (store : FileStore m) (path : String) : ExceptT FileError m Unit :=
  tryCatch (store.makeDirectory path) fun error => do
    unless ← store.isDirectory path do throw error

/-- Makes a directory and those that it lies in. The empty path needs none. -/
def makeDirectories (store : FileStore m) (path : String) : ExceptT FileError m Unit := do
  unless path = "" do
    tryCatch (store.ensureDirectory path) fun error => do
      if error ≠ .notFound then throw error
      match _ : parent? path with
      | some parent =>
        store.makeDirectories parent
        store.ensureDirectory path
      | none => throw (.other "failed to create whole tree")
termination_by path.length
decreasing_by exact length_lt_of_parent?_eq_some ‹_›

end FileStore

end NodeFactory

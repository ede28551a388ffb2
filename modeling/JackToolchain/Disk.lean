import JackToolchain.Disk.Path

/-!
# Disks

What a build does with a disk and with its two channels of output, for any disk.

* `DiskError` — why an operation fails.
* `Disk` — the operations.
* `Disk.isFile`, `Disk.isDirectory` — what stands at a path.
* `Disk.makeDirectories` — a directory together with those in front of it.
-/

namespace JackToolchain

open Disk (Path)

/-- Why an operation on a disk fails. -/
inductive DiskError where
  | notFound
  /-- Something in front of the last component is no directory. -/
  | notADirectory
  | isADirectory
  | alreadyExists
  /-- A path holds a null character, which no name does. -/
  | nullCharacter
  /-- A name or a path is longer than the disk allows. -/
  | nameTooLong
  /-- A file that should hold text does not. -/
  | notText
  /-- Any other reason, as the system states it. -/
  | other (reason : String)
  deriving DecidableEq

/-- What stands at a path. -/
inductive NodeKind where
  | file
  | directory
  deriving DecidableEq

/-- The operations of a disk, as effects of `m`. -/
structure Disk (m : Type → Type) where
  /-- What stands at a path. -/
  kind : Path → m (Except DiskError NodeKind)
  /-- The names in a directory, in any order. -/
  list : Path → m (Except DiskError (List String))
  /-- The text of a file. -/
  read : Path → m (Except DiskError String)
  /-- Replaces or makes a file. -/
  write : Path → String → m (Except DiskError Unit)
  /-- Makes a directory in one that exists. -/
  makeDirectory : Path → m (Except DiskError Unit)
  /-- The path of what stands at a path that begins at the root and holds no `..`. -/
  canonical : Path → m Path
  /-- Prints a line for the user. -/
  say : String → m Unit
  /-- Prints a line about something that went wrong. -/
  complain : String → m Unit

namespace Disk

variable {m : Type → Type} [Monad m]

/-- Whether a file stands at a path. -/
def isFile (disk : Disk m) (path : Path) : m Bool := do
  match ← disk.kind path with
  | .ok .file => return true
  | _ => return false

/-- Whether a directory stands at a path. -/
def isDirectory (disk : Disk m) (path : Path) : m Bool := do
  match ← disk.kind path with
  | .ok .directory => return true
  | _ => return false

/-- A failure to make a directory does not count where one stands. -/
def unlessDirectory (disk : Disk m) (path : Path) (error : DiskError) :
    m (Except DiskError Unit) := do
  if ← disk.isDirectory path then return .ok () else return .error error

/-- Makes the first of some directories, each of which stands in the next.  The empty path always
stands. -/
def makeFirst (disk : Disk m) : List Path → m (Except DiskError Unit)
  | [] => return .error (.other "failed to create whole tree")
  | path :: outer => do
    if path.isEmpty then return .ok ()
    match ← disk.makeDirectory path with
    | .ok () => return .ok ()
    | .error .notFound =>
      match ← disk.makeFirst outer with
      | .error error => return .error error
      | .ok () =>
        match ← disk.makeDirectory path with
        | .ok () => return .ok ()
        | .error error => disk.unlessDirectory path error
    | .error error => disk.unlessDirectory path error

/-- Makes a directory and those in front of it, where they do not stand. -/
def makeDirectories (disk : Disk m) (path : Path) : m (Except DiskError Unit) :=
  disk.makeFirst path.ancestors

end Disk

end JackToolchain

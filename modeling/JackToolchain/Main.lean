import JackToolchain.Build

/-!
# The command line

Reads the arguments, runs the build on the disk of the machine and prints what went wrong.  The exit
code is zero for success, one for a build that fails and two for words that are no request.
-/

namespace JackToolchain

open Disk (Path)

/-- The name under which the program runs. -/
def commandName : String := "jackc"

/-- The version of the program. -/
def versionText : String := s!"{commandName} 0.1.0"

/-- How the program is used. -/
def usageText : String :=
  "\n".intercalate
    [ s!"Usage: {commandName} [OPTIONS] <INPUT>",
      "",
      "Arguments:",
      "  <INPUT>  A .jack or .vm file, or a directory of them",
      "",
      "Options:",
      "  -o, --output <OUTPUT>  Output directory (defaults to the directory of the input)",
      "      --emit <EMIT>      Last stage to run [default: asm] [possible values: vm, asm, hack]",
      s!"      --config <CONFIG>  JSON config file (defaults to {settingsName} next to the sources)",
      "  -v, --verbose          Print progress",
      "  -h, --help             Print help",
      "  -V, --version          Print version" ]

/-- A failure of the system as a disk error. -/
def DiskError.ofSystem : IO.Error → DiskError
  | .noFileOrDirectory .. => .notFound
  | .alreadyExists .. => .alreadyExists
  | .inappropriateType _ 20 _ => .notADirectory
  | .inappropriateType _ 21 _ => .isADirectory
  | .invalidArgument _ 36 _ => .nameTooLong
  | error => .other (toString error)

/-- The wording of a disk error. -/
def DiskError.message : DiskError → String
  | notFound => "No such file or directory (os error 2)"
  | notADirectory => "Not a directory (os error 20)"
  | isADirectory => "Is a directory (os error 21)"
  | alreadyExists => "File exists (os error 17)"
  | nullCharacter => "file name contained an unexpected NUL byte"
  | nameTooLong => "File name too long (os error 36)"
  | notText => "stream did not contain valid UTF-8"
  | other reason => reason

/-- The wording of a part of an error. -/
def Cause.text : Cause → String
  | message text => text
  | disk error => error.message

/-- Runs a system operation. -/
def attemptSystem {α : Type} (operation : IO α) : IO (Except DiskError α) := do
  match ← operation.toBaseIO with
  | .ok value => return .ok value
  | .error error => return .error (.ofSystem error)

/-- Runs an operation that does not tell why a path leads nowhere; opening the path does. -/
def explained {α : Type} (path : Path) (operation : IO α) : IO α := do
  try operation
  catch failure =>
    let _ ← IO.FS.Handle.mk path.text .read
    throw failure

/-- The disk of the machine. -/
def systemDisk : Disk IO where
  kind path := attemptSystem do
    let metadata ← (← explained path (IO.FS.realPath path.text)).metadata
    return if metadata.type == .dir then .directory else .file
  list path := attemptSystem do
    let entries ← (← explained path (IO.FS.realPath path.text)).readDir
    return (entries.map (·.fileName)).toList
  read path := do
    match ← attemptSystem (IO.FS.readBinFile path.text) with
    | .ok bytes =>
      match String.fromUTF8? bytes with
      | some content => return .ok content
      | none => return .error .notText
    | .error error => return .error error
  write path content := attemptSystem (IO.FS.writeFile path.text content)
  makeDirectory path := attemptSystem (IO.FS.createDir path.text)
  canonical path := do
    match ← attemptSystem (IO.FS.realPath path.text) with
    | .ok full => return ⟨full.toString⟩
    | .error _ => return path
  say line := IO.println line
  complain line := IO.eprintln line

/-- The lines below the first in the statement of an error, numbered if there are several. -/
def causeLines : List Cause → List String
  | [cause] => [s!"    {cause.text}"]
  | causes => causes.zipIdx.map fun (cause, index) => s!"    {index}: {cause.text}"

/-- Prints the statement of an error. -/
def printError (error : BuildError) : IO Unit := do
  match error.chain with
  | [] => return ()
  | first :: rest =>
    IO.eprintln s!"Error: {first.text}"
    unless rest.isEmpty do
      IO.eprintln "\nCaused by:"
      for line in causeLines rest do IO.eprintln line

/-- Answers the words of a command line. -/
def runCommand (words : List String) : IO UInt32 := do
  match Request.ofWords words with
  | .ok .help =>
    IO.println usageText
    return 0
  | .ok .version =>
    IO.println versionText
    return 0
  | .error error =>
    IO.eprintln s!"error: {error.message}\n\n{usageText}"
    return 2
  | .ok (.build arguments) =>
    match ← (build systemDisk arguments).run with
    | .ok () => return 0
    | .error error =>
      printError error
      return 1

end JackToolchain

def main (words : List String) : IO UInt32 := JackToolchain.runCommand words

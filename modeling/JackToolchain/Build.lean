import JackToolchain.Arguments
import JackToolchain.Disk

/-!
# Builds

A build loads sources and settings, takes the program to the wanted stage, writes what it made and
reports what failed.  It is written for any disk.

* `discover` — the sources in a directory.
* `load` — the program at a path.
* `loadSettings` — the settings of a build.
* `writeArtifacts` — what a product leaves on the disk.
* `build` — all of it.
* `BuildError` — why a build does not succeed; `BuildError.chain` states it from the outermost cause to
  the innermost.
-/

namespace JackToolchain

open Disk (Path)

/-! ## Errors -/

/-- Why there is no program at a path. -/
inductive LoadError where
  | reading (path : Path) (cause : DiskError)
  | listing (path : Path) (cause : DiskError)
  /-- Nothing is left of a path to name a program by. -/
  | unnamed (path : Path)
  /-- A file that is no source. -/
  | notASource (path : Path)
  /-- A directory without sources. -/
  | noSources (path : Path)

/-- What is written. -/
inductive Artifacts where
  /-- The code of the classes. -/
  | vm
  /-- The assembly and the words of the program. -/
  | assembly

/-- Why a build does not succeed. -/
inductive BuildError where
  | loading (input : Path) (cause : LoadError)
  | readingSettings (path : Path) (cause : DiskError)
  | settings (path : Path) (cause : SettingsError)
  | creating (path : Path) (cause : DiskError)
  | writing (what : Artifacts) (cause : DiskError)
  /-- How many failures there were and how many units. -/
  | failed (failures units : Nat)

/-- One part of the statement of an error. -/
inductive Cause where
  | message (text : String)
  | disk (error : DiskError)

/-- What is written, in words. -/
def Artifacts.text : Artifacts → String
  | vm => "VM"
  | assembly => "assembly"

/-- The statement of a failure to load. -/
def LoadError.chain : LoadError → List Cause
  | reading path cause => [.message s!"Reading {path.text}", .disk cause]
  | listing path cause => [.message s!"Listing {path.text}", .disk cause]
  | unnamed path => [.message s!"cannot name a program after {path.text}"]
  | notASource path => [.message s!"{path.text} is neither a .jack nor a .vm file"]
  | noSources path => [.message s!"no .jack or .vm files in {path.text}"]

/-- The statement of an error, from the outermost cause to the innermost. -/
def BuildError.chain : BuildError → List Cause
  | loading input cause => .message s!"Loading sources from {input.text}" :: cause.chain
  | readingSettings path cause => [.message s!"Reading config {path.text}", .disk cause]
  | settings path cause => [.message s!"Loading config {path.text}", .message cause.message]
  | creating path cause => [.message s!"Creating {path.text}", .disk cause]
  | writing what cause => [.message s!"Writing {what.text} artifacts", .disk cause]
  | failed failures units => [.message s!"{failures} of {units} units failed"]

/-! ## Effects -/

variable {m : Type → Type} [Monad m]

/-- An operation of a disk whose failure has a meaning. -/
def attempt {α ε : Type} (operation : m (Except DiskError α)) (meaning : DiskError → ε) :
    ExceptT ε m α :=
  .mk do return (← operation).mapError meaning

/-- Reports a step if steps are to be reported. -/
def tell {ε : Type} (disk : Disk m) (verbose : Bool) (line : String) : ExceptT ε m Unit :=
  if verbose then ExceptT.lift (disk.say line) else return ()

/-! ## Loading -/

/-- Whether the class stands in a directory of which a file of that directory would be the code. -/
def isCodeOfClass (disk : Disk m) (directory path : Path) : m Bool :=
  match path.nameWith? SourceKind.jack.extension with
  | some name => disk.isFile (directory.join name)
  | none => return false

/-- What a name in a directory stands for, if it is a source: a file with the extension of a source,
but not the code of a class whose source stands next to it. -/
def sourceAt? (disk : Disk m) (directory : Path) (name : String) : m (Option Path) := do
  let path := directory.join name
  match SourceKind.ofPath? path with
  | none => return none
  | some kind =>
    if !(← disk.isFile path) then return none
    else if kind = .vm then
      if ← isCodeOfClass disk directory path then return none else return some path
    else return some path

/-- The sources in a directory, in the order of their names. -/
def discover (disk : Disk m) (directory : Path) : ExceptT LoadError m (List Path) := do
  let names ← attempt (disk.list directory) (.listing directory)
  let ordered := names.mergeSort (fun a b => decide (a ≤ b))
  ExceptT.lift (ordered.filterMapM (sourceAt? disk directory))

/-- The text of a source. -/
def loadUnit (disk : Disk m) (verbose : Bool) (path : Path) : ExceptT LoadError m SourceUnit := do
  let text ← attempt (disk.read path) (.reading path)
  tell disk verbose s!"Loaded {path.text}, size: {text.utf8ByteSize} bytes"
  match SourceUnit.ofFile? path text with
  | some unit => return unit
  | none => throw (.notASource path)

/-- A program and the directory of its sources. -/
structure Loaded where
  program : Program
  directory : Path

/-- The name by which a program is called. -/
def programName (disk : Disk m) (input : Path) (name? : Path → Option String) :
    ExceptT LoadError m String := do
  let path ← ExceptT.lift (disk.canonical input)
  match name? path with
  | some name => return name
  | none => throw (.unnamed path)

/-- The directory of a file. -/
def directoryOf (file : Path) : Path :=
  match file.parent? with
  | some parent => if parent.isEmpty then ⟨"."⟩ else parent
  | none => ⟨"."⟩

/-- The program in a directory, called like the directory. -/
def loadDirectory (disk : Disk m) (verbose : Bool) (input : Path) :
    ExceptT LoadError m Loaded := do
  let name ← programName disk input fun path => path.name?.map String.ofList
  let paths ← discover disk input
  tell disk verbose s!"Found {paths.length} source files in {input.text}"
  if paths.isEmpty then throw (.noSources input)
  let units ← paths.mapM (loadUnit disk verbose)
  return { program := { name, isDirectory := true, units }, directory := input }

/-- The program in a file, called like the file. -/
def loadFile (disk : Disk m) (verbose : Bool) (input : Path) : ExceptT LoadError m Loaded := do
  if (SourceKind.ofPath? input).isNone then throw (.notASource input)
  let name ← programName disk input Path.stem?
  let unit ← loadUnit disk verbose input
  return { program := { name, isDirectory := false, units := [unit] }, directory := directoryOf input }

/-- The program at a path. -/
def load (disk : Disk m) (verbose : Bool) (input : Path) : ExceptT LoadError m Loaded := do
  match ← attempt (disk.kind input) (.reading input) with
  | .directory => loadDirectory disk verbose input
  | .file => loadFile disk verbose input

/-- The name of the settings file next to the sources. -/
def settingsName : String := "jackc.json"

/-- The settings in a file. -/
def readSettings (disk : Disk m) (path : Path) : ExceptT BuildError m Settings := do
  let content ← attempt (disk.read path) (.readingSettings path)
  match Settings.read content with
  | .ok settings => return settings
  | .error cause => throw (.settings path cause)

/-- The settings of a build.  A file that was named must be there; the one next to the sources need
not. -/
def loadSettings (disk : Disk m) (named : Option Path) (directory : Path) :
    ExceptT BuildError m Settings := do
  match named with
  | some path => readSettings disk path
  | none =>
    let path := directory.join settingsName
    if ← ExceptT.lift (disk.isFile path) then readSettings disk path else return {}

/-! ## Writing -/

/-- A file to be written. -/
structure Artifact where
  name : String
  content : String

/-- The code of the classes that compiled, each in a file of its own. -/
def Product.vmArtifacts (product : Product) : List Artifact :=
  (product.units.filter (·.kind = .jack)).map fun unit =>
    ⟨s!"{unit.name}.vm", Vm.render unit.code⟩

/-- The assembly and the words of a program in which nothing failed. -/
def Product.programArtifacts (product : Product) (name : String) : List Artifact :=
  if product.succeeded then
    (product.asm.map fun asm => ⟨s!"{name}.asm", asm⟩).toList ++
      (product.hack.map fun hack => ⟨s!"{name}.hack", hack⟩).toList
  else []

/-- Writes files into a directory and returns their paths. -/
def writeAll (disk : Disk m) (directory : Path) (what : Artifacts) (artifacts : List Artifact) :
    ExceptT BuildError m (List Path) :=
  artifacts.mapM fun artifact => do
    let path := directory.join artifact.name
    attempt (disk.write path artifact.content) (.writing what)
    return path

/-- Writes what a product leaves on the disk. -/
def writeArtifacts (disk : Disk m) (directory : Path) (name : String) (product : Product) :
    ExceptT BuildError m (List Path) := do
  attempt (disk.makeDirectories directory) (.creating directory)
  let units ← writeAll disk directory .vm product.vmArtifacts
  let whole ← writeAll disk directory .assembly (product.programArtifacts name)
  return units ++ whole

/-! ## Building -/

/-- Reports the failures of a product, if there are any. -/
def report (disk : Disk m) (units : Nat) (product : Product) : ExceptT BuildError m Unit := do
  unless product.succeeded do
    for failure in product.failures do
      ExceptT.lift (disk.complain failure.message)
    throw (.failed product.failures.length units)

/-- Does what the arguments ask for. -/
def build (disk : Disk m) (arguments : Arguments) : ExceptT BuildError m Unit := do
  let loaded ← (load disk arguments.verbose arguments.input).adapt (.loading arguments.input)
  let settings ← loadSettings disk arguments.config loaded.directory
  let product := loaded.program.process settings arguments.emit
  for step in product.progress do
    tell disk arguments.verbose step.message
  let directory := arguments.output.getD loaded.directory
  let written ← writeArtifacts disk directory loaded.program.name product
  for path in written do
    tell disk arguments.verbose s!"Wrote {path.text}"
  report disk loaded.program.units.length product

end JackToolchain

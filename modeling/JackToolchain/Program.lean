import JackToolchain.Disk.Path
import JackToolchain.Hack.Assembler
import JackToolchain.Hack.Lowering
import JackToolchain.Jack.Session
import JackToolchain.Settings
import JackToolchain.Vm.Reader

/-!
# Programs

A program is a list of source units, each a class or stack-machine code.

* `SourceUnit` — a unit with its text.
* `Program` — the units and the name of the whole.
* `Emit` — how far to go: stack-machine code, assembly, or words.
* `Program.compile` — the code of every unit that compiles, and the failures of the others.
* `Program.process` — everything up to the wanted stage.

A unit that fails does not keep the others from being compiled.  Assembly is made only of programs in
which no unit failed, and is kept only if no unit fails while it is made.
-/

namespace JackToolchain

open Disk (Path)

/-- What a source unit holds. -/
inductive SourceKind where
  /-- A class. -/
  | jack
  /-- Stack-machine code. -/
  | vm
  deriving DecidableEq

namespace SourceKind

/-- The extension of the files of a kind. -/
def extension : SourceKind → String
  | jack => "jack"
  | vm => "vm"

/-- The kind of the files with an extension. -/
def ofExtension? (extension : String) : Option SourceKind :=
  [jack, vm].find? (·.extension == extension)

/-- The kind of a file. -/
def ofPath? (path : Path) : Option SourceKind := path.extension?.bind ofExtension?

end SourceKind

/-- A source unit.  Its name is the name under which its code is written and its statics are known. -/
structure SourceUnit where
  name : String
  kind : SourceKind
  text : String
  deriving DecidableEq

/-- The unit in a file, if the file is a source. -/
def SourceUnit.ofFile? (path : Path) (text : String) : Option SourceUnit := do
  let kind ← SourceKind.ofPath? path
  let name ← path.stem?
  return { name, kind, text }

/-- A program. -/
structure Program where
  name : String
  /-- Whether the units are those of a directory. -/
  isDirectory : Bool
  units : List SourceUnit

/-- How far to go.  Each stage includes those before it. -/
inductive Emit where
  | vm | asm | hack
  deriving DecidableEq

namespace Emit

/-- The name of a stage. -/
def text : Emit → String
  | vm => "vm"
  | asm => "asm"
  | hack => "hack"

/-- The stage of a name. -/
def ofText? (word : String) : Option Emit := [vm, asm, hack].find? (·.text == word)

end Emit

/-! ## Results -/

/-- The code of a unit. -/
structure CompiledUnit where
  name : String
  kind : SourceKind
  code : List Vm.Instruction
  deriving DecidableEq

/-- What is wrong with a unit, or with the program under its own name. -/
structure Failure where
  name : String
  error : Error
  deriving DecidableEq

/-- The line in which a failure is reported. -/
def Failure.message (failure : Failure) : String := s!"{failure.name}: {failure.error.message}"

/-- A step that was completed. -/
inductive Progress where
  | compiled (unit : String) (instructions : Nat)
  | lowered (lines : Nat)
  | assembled (words : Nat)
  deriving DecidableEq

/-- The line in which a completed step is reported. -/
def Progress.message : Progress → String
  | compiled unit instructions => s!"{unit}: {instructions} instructions"
  | lowered lines => s!"Translated {lines} assembly lines"
  | assembled words => s!"Assembled {words} words"

/-- What became of a program. -/
structure Product where
  /-- The units that compiled. -/
  units : List CompiledUnit
  failures : List Failure
  /-- The assembly text, if nothing failed and it was wanted. -/
  asm : Option String := none
  /-- The words, one a line, if nothing failed and they were wanted. -/
  hack : Option String := none
  progress : List Progress := []
  deriving DecidableEq

/-- Whether nothing failed. -/
def Product.succeeded (product : Product) : Bool := product.failures.isEmpty

/-! ## Compiling -/

/-- The code of a unit, and what the units behind it share. -/
def SourceUnit.compile (session : Jack.Session) (unit : SourceUnit) :
    Except Error (List Vm.Instruction) × Jack.Session :=
  match unit.kind with
  | .jack =>
    let (result, session) := session.compile unit.text
    (result.map (·.code), session)
  | .vm => (Vm.read unit.text, session)

/-- Compiles units one after the other. -/
def compileUnits (session : Jack.Session) : List SourceUnit → List CompiledUnit × List Failure
  | [] => ([], [])
  | unit :: rest =>
    let (result, session) := unit.compile session
    let (units, failures) := compileUnits session rest
    match result with
    | .ok code => (⟨unit.name, unit.kind, code⟩ :: units, failures)
    | .error error => (units, ⟨unit.name, error⟩ :: failures)

/-- Lowers units one after the other, also behind one that fails. -/
def lowerUnits (lowering : Hack.Lowering) : List CompiledUnit → Hack.Lowering × List Failure
  | [] => (lowering, [])
  | unit :: rest =>
    match lowering.addUnit unit.name unit.code with
    | .ok lowering => lowerUnits lowering rest
    | .error refusal =>
      let (lowering, failures) := lowerUnits refusal.reached rest
      (lowering, ⟨unit.name, refusal.error⟩ :: failures)

namespace Program

/-- Compiles the units of a program. -/
def compile (program : Program) (settings : Settings) : Product :=
  let (units, failures) := compileUnits { library := settings.library } program.units
  { units, failures, progress := units.map fun unit => .compiled unit.name unit.code.length }

/-- Whether a program begins by setting up the stack: as the settings say, or else if it is made from
a directory. -/
def startsUp (program : Program) (settings : Settings) : Bool :=
  settings.bootstrap.getD program.isDirectory

/-- The assembly in front of the first unit. -/
def opening (program : Program) (settings : Settings) : Hack.Lowering :=
  let empty : Hack.Lowering := { annotate := settings.annotate }
  if program.startsUp settings then empty.bootstrap settings.stackBase settings.library.entry
  else empty

/-- Makes words of the assembly of a program. -/
def assemble (program : Program) (product : Product) (asm : String) : Product :=
  match Hack.assemble asm with
  | .ok assembled =>
    { product with
      asm := some asm
      hack := some assembled.text
      progress := product.progress ++ [.assembled assembled.words.length] }
  | .error error => { product with failures := product.failures ++ [⟨program.name, error⟩] }

/-- Makes assembly of the units of a program that compiled, and words of the assembly if wanted. -/
def link (program : Program) (settings : Settings) (emit : Emit) (product : Product) : Product :=
  let (lowering, failures) := lowerUnits (program.opening settings) product.units
  if !failures.isEmpty then { product with failures := product.failures ++ failures }
  else
    let lowered := { product with
      progress := product.progress ++ [.lowered lowering.lines.size] }
    match emit with
    | .hack => program.assemble lowered lowering.text
    | _ => { lowered with asm := some lowering.text }

/-- Takes a program to the wanted stage. -/
def process (program : Program) (settings : Settings) (emit : Emit) : Product :=
  let product := program.compile settings
  if emit = .vm || !product.succeeded then product else program.link settings emit product

end Program

end JackToolchain

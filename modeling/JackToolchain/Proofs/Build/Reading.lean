import JackToolchain.Proofs.Build.Loading
import JackToolchain.Proofs.Disk.Contents

/-!
# Loading as a function

A program with its settings, as a function of the file tree from which it is loaded.

## Main Definitions

* `World.Sees`, `World.Yields` — an action that only looks, and one that may also fail and print, together with the
  function of the tree that it computes.
* `FileTree.sourceAt?`, `FileTree.discover` — the sources in a directory.
* `FileTree.load`, `FileTree.loadSettings`, `FileTree.loadAll` — what is loaded.

## Main Statements

* `World.Yields.bind` — one action after another.
* `run_loadAll` — what is loaded is the function of the tree.

## Design Notes

Nothing that is printed is part of the functions, so whether steps are reported is none of their arguments.
-/

namespace JackToolchain

open Disk World

namespace Disk.World

variable {α β ε ε' : Type}

/-! ## Looking -/

/-- **Seeing.**  The action changes nothing, and its result is a function of the tree. -/
def Sees (action : StateM World α) (value : FileTree → α) : Prop :=
  ∀ world : World, action.run world = (value world.tree, world)

namespace Sees

variable {action : StateM World α} {value : FileTree → α}

theorem pure (a : α) : Sees (pure a) fun _ => a := fun _ => rfl

theorem look (operation : FileTree → α) : Sees (World.look operation) operation := fun _ => rfl

/-- One action after another. -/
theorem bind {next : α → StateM World β} {rest : α → FileTree → β} (sees : Sees action value)
    (behind : ∀ a, Sees (next a) (rest a)) : Sees (action >>= next) fun tree => rest (value tree) tree := by
  intro world
  rw [StateT.run_bind, sees]
  exact behind _ world

/-- What is kept of a list. -/
theorem filterMapM {f : α → StateM World (Option β)} {g : α → FileTree → Option β} (each : ∀ a, Sees (f a) (g a))
    (list : List α) : Sees (list.filterMapM f) fun tree => list.filterMap (g · tree) := by
  induction list with
  | nil => exact pure []
  | cons a rest ih =>
      intro world
      rw [List.filterMapM_cons, StateT.run_bind, each]
      dsimp only [List.filterMap_cons]
      cases g a world.tree with
      | none => exact ih world
      | some b =>
          show (rest.filterMapM f >>= _).run world = _
          rw [StateT.run_bind, ih]
          rfl

end Sees

/-! ## Loading -/

/-- **Yielding.**  The action leaves the tree as it is and complains of nothing, and its result is a function of the
tree. -/
def Yields (action : ExceptT ε (StateM World) α) (value : FileTree → Except ε α) : Prop :=
  ∀ world : World, ∃ said, run action world = (value world.tree, { world with said })

namespace Yields

variable {action : ExceptT ε (StateM World) α} {value : FileTree → Except ε α}

theorem pure (a : α) : Yields (pure a : ExceptT ε (StateM World) α) fun _ => .ok a := fun world => ⟨world.said, rfl⟩

theorem throw (error : ε) : Yields (throw error : ExceptT ε (StateM World) α) fun _ => .error error :=
  fun world => ⟨world.said, rfl⟩

/-- **One action after another.** -/
theorem bind {next : α → ExceptT ε (StateM World) β} {rest : α → FileTree → Except ε β} (yields : Yields action value)
    (behind : ∀ a, Yields (next a) (rest a)) : Yields (action >>= next) fun tree => value tree >>= (rest · tree) := by
  intro world
  obtain ⟨said, ran⟩ := yields world
  show ∃ said, run (action >>= next) world = (value world.tree >>= (rest · world.tree), _)
  cases result : value world.tree with
  | error error =>
      rw [result] at ran
      exact ⟨said, run_bind_of_error ran⟩
  | ok a =>
      rw [result] at ran
      obtain ⟨said', ranToo⟩ := behind a { world with said }
      exact ⟨said', (run_bind_of_ok ran).trans ranToo⟩

/-- An action that cannot fail. -/
theorem lift {action : StateM World α} {value : FileTree → α} (sees : Sees action value) :
    Yields (ExceptT.lift action : ExceptT ε (StateM World) α) fun tree => .ok (value tree) := by
  intro world
  refine ⟨world.said, ?_⟩
  rw [run, ExceptT.run_lift, StateT.run_map, sees]
  rfl

/-- An operation that only looks. -/
theorem attempt (operation : FileTree → Except DiskError α) (meaning : DiskError → ε) :
    Yields (attempt (World.look operation) meaning) fun tree => (operation tree).mapError meaning :=
  fun world => ⟨world.said, rfl⟩

/-- The cause of a failure is put differently. -/
theorem adapt (yields : Yields action value) (reword : ε → ε') :
    Yields (action.adapt reword) fun tree => (value tree).mapError reword := by
  intro world
  obtain ⟨said, ran⟩ := yields world
  have adapted : run (action.adapt reword) world = ((run action world).1.mapError reword, (run action world).2) := rfl
  exact ⟨said, by rw [adapted, ran]⟩

/-- A report does not matter. -/
theorem tell_bind (verbose : Bool) (line : String) {next : Unit → ExceptT ε (StateM World) α}
    (yields : Yields (next ()) value) : Yields (tell World.disk verbose line >>= next) value := by
  intro world
  cases verbose with
  | false => exact yields world
  | true => exact yields { world with said := world.said ++ [line] }

/-- **A list** of which each member is loaded. -/
theorem mapM {f : α → ExceptT ε (StateM World) β} {g : α → FileTree → Except ε β} (each : ∀ a, Yields (f a) (g a))
    (list : List α) : Yields (list.mapM f) fun tree => list.mapM (g · tree) := by
  induction list with
  | nil => exact pure []
  | cons a rest ih =>
      simp only [List.mapM_cons]
      exact (each a).bind fun value => ih.bind fun values => pure (value :: values)

end Yields

end Disk.World

namespace Disk.FileTree

/-! ## Sources -/

/-- Whether the class stands in a directory of which a file of that directory would be the code. -/
def isCodeOfClass (tree : FileTree) (directory path : Path) : Bool :=
  match path.nameWith? SourceKind.jack.extension with
  | some name => tree.isFile (directory.join name)
  | none => false

/-- What a name in a directory stands for, if it is a source. -/
def sourceAt? (tree : FileTree) (directory : Path) (name : String) : Option Path :=
  match SourceKind.ofPath? (directory.join name) with
  | none => none
  | some kind =>
    if tree.isFile (directory.join name) = false then none
    else if kind = .vm then
      if tree.isCodeOfClass directory (directory.join name) then none else some (directory.join name)
    else some (directory.join name)

/-- The sources in a directory, in the order of their names. -/
def discover (tree : FileTree) (directory : Path) : Except LoadError (List Path) := do
  let names ← (tree.list directory).mapError (.listing directory)
  return (names.mergeSort fun a b => decide (a ≤ b)).filterMap (tree.sourceAt? directory)

/-! ## Programs -/

/-- The unit in a file. -/
def loadUnit (tree : FileTree) (path : Path) : Except LoadError SourceUnit := do
  let text ← (tree.read path).mapError (.reading path)
  match SourceUnit.ofFile? path text with
  | some unit => return unit
  | none => throw (.notASource path)

/-- The name by which a program is called. -/
def programName (tree : FileTree) (input : Path) (name? : Path → Option String) : Except LoadError String :=
  match name? (tree.canonical input) with
  | some name => .ok name
  | none => .error (.unnamed (tree.canonical input))

/-- The program in a directory. -/
def loadDirectory (tree : FileTree) (input : Path) : Except LoadError Loaded := do
  let name ← tree.programName input fun path => path.name?.map String.ofList
  let paths ← tree.discover input
  if paths.isEmpty then .error (.noSources input)
  else
    let units ← paths.mapM tree.loadUnit
    return { program := { name, isDirectory := true, units }, directory := input }

/-- The program in a file. -/
def loadFile (tree : FileTree) (input : Path) : Except LoadError Loaded :=
  if (SourceKind.ofPath? input).isNone then .error (.notASource input)
  else do
    let name ← tree.programName input Path.stem?
    let unit ← tree.loadUnit input
    return { program := { name, isDirectory := false, units := [unit] }, directory := directoryOf input }

/-- The program at a path. -/
def load (tree : FileTree) (input : Path) : Except LoadError Loaded := do
  match ← (tree.kind input).mapError (.reading input) with
  | .directory => tree.loadDirectory input
  | .file => tree.loadFile input

/-- The settings in a file. -/
def readSettings (tree : FileTree) (path : Path) : Except BuildError Settings := do
  let content ← (tree.read path).mapError (.readingSettings path)
  (Settings.read content).mapError (.settings path)

/-- The settings of a build. -/
def loadSettings (tree : FileTree) (named : Option Path) (directory : Path) : Except BuildError Settings :=
  match named with
  | some path => tree.readSettings path
  | none =>
    if tree.isFile (directory.join settingsName) then tree.readSettings (directory.join settingsName) else .ok {}

/-- The program with its settings. -/
def loadAll (tree : FileTree) (arguments : Arguments) : Except BuildError (Loaded × Settings) := do
  let loaded ← (tree.load arguments.input).mapError (.loading arguments.input)
  let settings ← tree.loadSettings arguments.config loaded.directory
  return (loaded, settings)

end Disk.FileTree

/-! ## What is run -/

theorem sees_isFile (path : Path) : Sees (World.disk.isFile path) (·.isFile path) := by
  intro world
  unfold Disk.isFile FileTree.isFile
  have looked : (World.disk.kind path).run world = (world.tree.kind path, world) := rfl
  rw [StateT.run_bind, looked]
  show StateT.run _ world = _
  dsimp only
  cases world.tree.kind path with
  | error error => rfl
  | ok kind => cases kind <;> rfl

theorem sees_isCodeOfClass (directory path : Path) :
    Sees (isCodeOfClass World.disk directory path) (·.isCodeOfClass directory path) := by
  unfold isCodeOfClass FileTree.isCodeOfClass
  cases path.nameWith? SourceKind.jack.extension with
  | some name => exact sees_isFile _
  | none => exact .pure false

theorem sees_sourceAt (directory : Path) (name : String) :
    Sees (sourceAt? World.disk directory name) (·.sourceAt? directory name) := by
  unfold sourceAt? FileTree.sourceAt?
  dsimp only
  cases SourceKind.ofPath? (directory.join name) with
  | none => exact .pure none
  | some kind =>
      intro world
      have present := sees_isFile (directory.join name) world
      have covered := sees_isCodeOfClass directory (directory.join name) world
      dsimp only at present covered ⊢
      rw [run_bind_of present]
      cases world.tree.isFile (directory.join name) with
      | false => rfl
      | true =>
          cases kind with
          | jack => rfl
          | vm =>
              show (isCodeOfClass World.disk directory (directory.join name) >>= _).run world = _
              rw [run_bind_of covered]
              cases world.tree.isCodeOfClass directory (directory.join name) <;> rfl

theorem yields_discover (directory : Path) :
    Yields (discover World.disk directory) (·.discover directory) :=
  (Yields.attempt (·.list directory) _).bind fun _ =>
    .lift (.filterMapM (sees_sourceAt directory) _)

theorem yields_unit (verbose : Bool) (path : Path) : Yields (loadUnit World.disk verbose path) (·.loadUnit path) := by
  refine (Yields.attempt (·.read path) _).bind fun text => .tell_bind verbose _ ?_
  cases SourceUnit.ofFile? path text with
  | some unit => exact .pure unit
  | none => exact .throw _

theorem yields_programName (input : Path) (name? : Path → Option String) :
    Yields (programName World.disk input name?) (·.programName input name?) := by
  intro world
  refine ⟨world.said, ?_⟩
  unfold FileTree.programName
  have looked : run (ExceptT.lift (World.disk.canonical input) : ExceptT LoadError (StateM World) Path) world =
      (.ok (world.tree.canonical input), world) := rfl
  rw [programName, run_bind_of_ok looked]
  dsimp only
  cases name? (world.tree.canonical input) <;> rfl

theorem yields_directory (verbose : Bool) (input : Path) :
    Yields (loadDirectory World.disk verbose input) (·.loadDirectory input) := by
  refine (yields_programName input _).bind fun name => (yields_discover input).bind fun paths =>
    .tell_bind verbose _ ?_
  by_cases empty : paths.isEmpty = true
  · simp only [if_pos empty]
    exact .throw _
  · simp only [if_neg empty]
    exact (Yields.mapM (yields_unit verbose) paths).bind fun units => .pure _

theorem yields_file (verbose : Bool) (input : Path) :
    Yields (loadFile World.disk verbose input) (·.loadFile input) := by
  unfold loadFile FileTree.loadFile
  by_cases other : (SourceKind.ofPath? input).isNone = true
  · simp only [if_pos other]
    exact .throw _
  · simp only [if_neg other]
    exact (yields_programName input _).bind fun name => (yields_unit verbose input).bind fun unit => .pure _

theorem yields_program (verbose : Bool) (input : Path) : Yields (load World.disk verbose input) (·.load input) := by
  refine (Yields.attempt (·.kind input) _).bind fun kind => ?_
  cases kind with
  | directory => exact yields_directory verbose input
  | file => exact yields_file verbose input

theorem yields_readSettings (path : Path) : Yields (readSettings World.disk path) (·.readSettings path) := by
  refine (Yields.attempt (·.read path) _).bind fun content => ?_
  cases Settings.read content with
  | ok settings => exact .pure settings
  | error cause => exact .throw _

theorem yields_settings (named : Option Path) (directory : Path) :
    Yields (loadSettings World.disk named directory) (·.loadSettings named directory) := by
  cases named with
  | some path => exact yields_readSettings path
  | none =>
      intro world
      unfold loadSettings FileTree.loadSettings
      obtain ⟨said, looked⟩ : ∃ said, run (ExceptT.lift (World.disk.isFile (directory.join settingsName)) :
          ExceptT BuildError (StateM World) Bool) world = (.ok (world.tree.isFile (directory.join settingsName)),
            { world with said }) := Yields.lift (sees_isFile _) world
      rw [run_bind_of_ok looked]
      dsimp only
      cases world.tree.isFile (directory.join settingsName) with
      | true => exact yields_readSettings _ { world with said }
      | false => exact ⟨said, rfl⟩

theorem yields_all (arguments : Arguments) : Yields (loadAll World.disk arguments) (·.loadAll arguments) :=
  ((yields_program _ _).adapt _).bind fun _ => (yields_settings _ _).bind fun _ => .pure _

/-- **What is loaded** is the function of the tree. -/
theorem run_loadAll (arguments : Arguments) (world : World) : ∃ said, run (loadAll World.disk arguments) world =
    (world.tree.loadAll arguments, { world with said }) := yields_all arguments world

end JackToolchain

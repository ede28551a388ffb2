import JackToolchain.Proofs.Build.Storing
import JackToolchain.Proofs.Disk.World

/-!
# Writing artifacts

What a build leaves on a disk once it has loaded its program.

## Main Definitions

* `World.Grows` — an action that makes directories.
* `World.Says` — an action that prints, and does nothing else.
* `leaveAll` — writing files into a directory, as a function of the tree.
* `Product.artifacts` — the files that a product leaves.

## Main Statements

* `grows_makeDirectories` — making directories makes directories only.
* `run_writeAll_eq`, `run_writeAll` — the function is what is run, and files are written as far as they can be stored.
* `run_writeArtifacts` — the files are stored, in a tree that has grown, unless an operation fails.
* `run_report` — a failure for each thing that went wrong.
-/

namespace JackToolchain

open Disk World

variable {α β ε : Type}

/-! ## Directories -/

/-- **Growing.**  The action adds directories to the tree, if it changes it. -/
def Disk.World.Grows (action : StateM World α) : Prop :=
  ∀ world : World, ∃ result tree, action.run world = (result, { world with tree }) ∧
    world.tree.Grown tree

namespace Disk.World.Grows

variable {action : StateM World α}

theorem pure (value : α) : Grows (pure value) :=
  fun world => ⟨value, world.tree, rfl, .refl world.tree⟩

theorem bind {next : α → StateM World β} (grows : Grows action) (behind : ∀ a, Grows (next a)) :
    Grows (action >>= next) := by
  intro world
  obtain ⟨between, tree, ran, grown⟩ := grows world
  obtain ⟨result, tree', ranToo, grownToo⟩ := behind between { world with tree }
  refine ⟨result, tree', ?_, grown.trans grownToo⟩
  rw [StateT.run_bind, ran]
  exact ranToo

theorem look (operation : FileTree → α) : Grows (World.look operation) :=
  fun world => ⟨_, world.tree, rfl, .refl world.tree⟩

theorem makeDirectory (path : Path) : Grows (World.disk.makeDirectory path) := by
  intro world
  change ∃ result tree, (change (·.makeDirectory path)).run world = _ ∧ _
  rw [run_change]
  cases made : world.tree.makeDirectory path with
  | ok tree => exact ⟨_, tree, rfl, .makeDirectory made⟩
  | error error => exact ⟨_, world.tree, rfl, .refl world.tree⟩

theorem isDirectory (path : Path) : Grows (World.disk.isDirectory path) := by
  refine (look (·.kind path)).bind fun kind => ?_
  split
  · exact pure true
  · exact pure false

end Disk.World.Grows

/-- **Making directories** makes directories only. -/
theorem grows_makeDirectories (path : Path) : Grows (World.disk.makeDirectories path) := by
  unfold Disk.makeDirectories
  induction path.ancestors with
  | nil => exact Grows.pure _
  | cons path outer ih =>
      have otherwise (error : DiskError) : Grows (World.disk.unlessDirectory path error) := by
        refine (Grows.isDirectory path).bind fun stands => ?_
        split
        · exact Grows.pure _
        · exact Grows.pure _
      unfold Disk.makeFirst
      split
      · exact Grows.pure _
      · refine (Grows.makeDirectory path).bind fun result => ?_
        split
        · exact Grows.pure _
        -- the directories in front are made, and then it is tried once more
        · refine ih.bind fun result => ?_
          split
          · exact Grows.pure _
          · refine (Grows.makeDirectory path).bind fun result => ?_
            split
            · exact Grows.pure _
            · exact otherwise _
        · exact otherwise _

/-! ## Files -/

/-- Writes files into a directory, up to the first one that cannot be written. -/
def leaveAll (directory : Path) : List (Artifacts × Artifact) → FileTree → Except BuildError Unit × FileTree
  | [], tree => (.ok (), tree)
  | (what, artifact) :: rest, tree =>
    match tree.write (directory.join artifact.name) artifact.content with
    | .ok written => leaveAll directory rest written
    | .error cause => (.error (.writing what cause), tree)

section LeaveAll

variable {directory : Path} {what : Artifacts} {artifact : Artifact} {rest : List (Artifacts × Artifact)}
  {tree between : FileTree}

/-- One file is written in front of the others… -/
theorem leaveAll_cons_of_ok
    (written : tree.write (directory.join artifact.name) artifact.content = .ok between) :
    leaveAll directory ((what, artifact) :: rest) tree = leaveAll directory rest between := by
  rw [leaveAll.eq_def]
  dsimp only
  rw [written]

/-- …which are not written if that fails. -/
theorem leaveAll_cons_of_error {cause : DiskError}
    (refused : tree.write (directory.join artifact.name) artifact.content = .error cause) :
    leaveAll directory ((what, artifact) :: rest) tree = (.error (.writing what cause), tree) := by
  rw [leaveAll.eq_def]
  dsimp only
  rw [refused]

end LeaveAll

/-- **Files of one kind** are written by the function. -/
theorem run_writeAll_eq (directory : Path) (what : Artifacts) (artifacts : List Artifact) (world : World) :
    run (writeAll World.disk directory what artifacts) world =
      ((leaveAll directory (artifacts.map (what, ·)) world.tree).1.map fun _ =>
          artifacts.map fun artifact => directory.join artifact.name,
        { world with tree := (leaveAll directory (artifacts.map (what, ·)) world.tree).2 }) := by
  unfold writeAll
  induction artifacts generalizing world with
  | nil => rfl
  | cons artifact rest ih =>
      have ran := run_attempt_change (·.write (directory.join artifact.name) artifact.content)
        (BuildError.writing what) world
      rw [List.mapM_cons, List.map_cons, List.map_cons]
      cases written : world.tree.write (directory.join artifact.name) artifact.content with
      | error error =>
          rw [written] at ran
          rw [leaveAll_cons_of_error written]
          exact run_bind_of_error (run_bind_of_error ran)
      | ok between =>
          rw [written] at ran
          have first : run (do
                attempt (World.disk.write (directory.join artifact.name) artifact.content) (.writing what)
                return directory.join artifact.name : ExceptT BuildError (StateM World) Path) world =
              (.ok (directory.join artifact.name), { world with tree := between }) := run_bind_of_ok ran
          have behind := ih { world with tree := between }
          rw [leaveAll_cons_of_ok written]
          dsimp only at behind
          cases left : leaveAll directory (rest.map (what, ·)) between with
          | mk result after =>
              rw [left] at behind
              cases result with
              | ok _ => exact (run_bind_of_ok first).trans (run_bind_of_ok behind)
              | error error => exact (run_bind_of_ok first).trans (run_bind_of_error behind)

/-- Files that can be stored are written, and otherwise one of them is not. -/
theorem leaveAll_of_store (directory : Path) (what : Artifacts) (artifacts : List Artifact) (tree : FileTree) :
    match store directory tree artifacts with
    | .ok after => leaveAll directory (artifacts.map (what, ·)) tree = (.ok (), after)
    | .error cause =>
        ∃ after, leaveAll directory (artifacts.map (what, ·)) tree = (.error (.writing what cause), after) := by
  induction artifacts generalizing tree with
  | nil => rfl
  | cons artifact rest ih =>
      rw [store, List.foldlM_cons, List.map_cons]
      cases written : tree.write (directory.join artifact.name) artifact.content with
      | error cause => exact ⟨tree, leaveAll_cons_of_error written⟩
      | ok between =>
          rw [leaveAll_cons_of_ok written]
          exact ih between

/-- **Files are written** one after the other, as far as they can be stored. -/
theorem run_writeAll (directory : Path) (what : Artifacts) (artifacts : List Artifact) (world : World) :
    match store directory world.tree artifacts with
    | .ok tree => run (writeAll World.disk directory what artifacts) world =
        (.ok (artifacts.map fun artifact => directory.join artifact.name), { world with tree })
    | .error cause => ∃ after, run (writeAll World.disk directory what artifacts) world =
        (.error (.writing what cause), after) := by
  have left := leaveAll_of_store directory what artifacts world.tree
  rw [run_writeAll_eq]
  cases stored : store directory world.tree artifacts with
  | ok tree =>
      rw [stored] at left
      dsimp only at left ⊢
      rw [left]
      rfl
  | error cause =>
      rw [stored] at left
      obtain ⟨after, left⟩ := left
      exact ⟨{ world with tree := after }, by rw [left]; rfl⟩

/-- The files that a product leaves. -/
def Product.artifacts (product : Product) (name : String) : List Artifact :=
  product.vmArtifacts ++ product.programArtifacts name

/-- **What a product leaves** is written, if the directory can be made and the files can be stored. -/
theorem run_writeArtifacts_of_store {directory : Path} {name : String} {product : Product}
    {world : World} {grown tree : FileTree}
    (made : (World.disk.makeDirectories directory).run world = (.ok (), { world with tree := grown }))
    (done : store directory grown (product.artifacts name) = .ok tree) :
    ∃ paths, run (writeArtifacts World.disk directory name product) world =
      (.ok paths, { world with tree }) := by
  rw [store, Product.artifacts, List.foldlM_append] at done
  obtain ⟨between, storedUnits, storedWhole⟩ := both_ok done
  have units := run_writeAll directory .vm product.vmArtifacts { world with tree := grown }
  have whole := run_writeAll directory .assembly (product.programArtifacts name)
    { world with tree := between }
  rw [store, storedUnits] at units
  rw [store, storedWhole] at whole
  rw [writeArtifacts, run_bind_of_ok (run_attempt_of _ made), run_bind_of_ok units]
  exact ⟨_, run_bind_of_ok whole⟩

/-- **Otherwise** an operation fails. -/
theorem run_writeArtifacts (directory : Path) (name : String) (product : Product) (world : World) :
    (∃ paths grown tree, run (writeArtifacts World.disk directory name product) world =
        (.ok paths, { world with tree }) ∧ world.tree.Grown grown ∧
        store directory grown (product.artifacts name) = .ok tree) ∨
      (∃ cause after, run (writeArtifacts World.disk directory name product) world =
        (.error (.creating directory cause), after)) ∨
      ∃ what cause after, run (writeArtifacts World.disk directory name product) world =
        (.error (.writing what cause), after) := by
  obtain ⟨result, grown, made, isGrown⟩ := grows_makeDirectories directory world
  have ran := run_attempt_of (BuildError.creating directory) made
  cases result with
  | error error => exact .inr (.inl ⟨error, _, run_bind_of_error ran⟩)
  | ok _ =>
      cases done : store directory grown (product.artifacts name) with
      | ok tree =>
          obtain ⟨paths, written⟩ := run_writeArtifacts_of_store made done
          exact .inl ⟨paths, grown, tree, written, isGrown, done⟩
      | error cause =>
          -- the code or what stands behind it cannot be stored
          rw [writeArtifacts, run_bind_of_ok ran]
          have units := run_writeAll directory .vm product.vmArtifacts { world with tree := grown }
          cases storedUnits : store directory grown product.vmArtifacts with
          | error cause =>
              rw [storedUnits] at units
              obtain ⟨after, failed⟩ := units
              exact .inr (.inr ⟨_, cause, after, run_bind_of_error failed⟩)
          | ok between =>
              rw [storedUnits] at units
              have whole := run_writeAll directory .assembly (product.programArtifacts name)
                { world with tree := between }
              rw [store, ← foldlM_append_of_ok storedUnits, ← Product.artifacts, ← store, done] at whole
              obtain ⟨after, failed⟩ := whole
              rw [run_bind_of_ok units]
              exact .inr (.inr ⟨_, cause, after, run_bind_of_error failed⟩)

/-! ## Printing -/

/-- **Printing.**  The action succeeds and does nothing else. -/
def Disk.World.Says (action : ExceptT ε (StateM World) Unit) : Prop :=
  ∀ world : World, ∃ said, run action world = (.ok (), { world with said })

theorem says_tell (verbose : Bool) (line : String) :
    Says (tell World.disk verbose line : ExceptT BuildError (StateM World) Unit) := by
  intro world
  cases verbose with
  | true => exact ⟨world.said ++ [line], rfl⟩
  | false => exact ⟨world.said, rfl⟩

/-- One line for each item of a list. -/
theorem says_forIn {f : α → ExceptT ε (StateM World) Unit} (each : ∀ a, Says (f a)) (list : List α) :
    Says (forIn list PUnit.unit fun a _ => do
      f a
      pure (ForInStep.yield PUnit.unit)) := by
  induction list with
  | nil => exact fun world => ⟨world.said, rfl⟩
  | cons a rest ih =>
      intro world
      obtain ⟨between, ran⟩ := each a world
      obtain ⟨said, ranRest⟩ := ih { world with said := between }
      refine ⟨said, ?_⟩
      rw [List.forIn_cons, bind_assoc, run_bind_of_ok ran, pure_bind]
      exact ranRest

/-- **The report** is a line for each failure, and their number if there are any. -/
theorem run_report (units : Nat) (product : Product) (world : World) :
    run (report World.disk units product) world =
      (if product.failures = [] then .ok () else .error (.failed product.failures.length units),
        { world with complained := world.complained ++ product.failures.map Failure.message }) := by
  have each (failures : List Failure) (world : World) :
      run (forIn failures PUnit.unit fun failure _ => do
          ExceptT.lift (World.disk.complain failure.message)
          pure (ForInStep.yield PUnit.unit) : ExceptT BuildError (StateM World) PUnit) world =
        (.ok (), { world with complained := world.complained ++ failures.map Failure.message }) := by
    induction failures generalizing world with
    | nil => exact congrArg (Prod.mk _) (congrArg (World.mk _ _) (List.append_nil _).symm)
    | cons failure rest ih =>
        have ran : run (ExceptT.lift (World.disk.complain failure.message) :
            ExceptT BuildError (StateM World) Unit) world =
              (.ok (), { world with complained := world.complained ++ [failure.message] }) := rfl
        rw [List.forIn_cons, bind_assoc, run_bind_of_ok ran, pure_bind]
        refine (ih _).trans ?_
        rw [List.map_cons, List.append_assoc, List.singleton_append]
  unfold report Product.succeeded
  cases failures : product.failures with
  | nil => exact congrArg (Prod.mk _) (congrArg (World.mk _ _) (List.append_nil _).symm)
  | cons failure rest => exact run_bind_of_ok (each (failure :: rest) world)

end JackToolchain

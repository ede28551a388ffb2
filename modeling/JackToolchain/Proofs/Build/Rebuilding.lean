import JackToolchain.Proofs.Build.Reloading

/-!
# Building again

A build that is run a second time, in the tree that the first one left.

## Main Definitions

* `Product.outcome`, `Product.complaints` — what comes of a product once its files are left.

## Main Statements

* `run_build_of_load` — a build that loads leaves the files of its product, and reports.
* `rebuild_idempotent` — the second build loads what the first one did, fails as it did, and changes nothing.
* `second_failure_restated` — where a file stands in the place of a directory that is to be made, the second build may
  state its failure differently.

## Design Notes

Whatever the first build wrote is written again, with the same content; so it does not matter where the artifacts are
put, as long as nothing that is read is one of them.  Two files could be.  The settings file that is named may be
written over by an artifact.  And the code of a class whose name is a dot is taken for a source of its own: the class
of a file is found by changing the extension, which here would leave the two dots that lead outwards.
-/

namespace JackToolchain

open Disk World FileTree

/-- What comes of a product once its files are left, or are not. -/
def Product.outcome (product : Product) (units : Nat) : Except BuildError Unit → Except BuildError Unit
  | .ok () => if product.failures = [] then .ok () else .error (.failed product.failures.length units)
  | .error error => .error error

/-- The failures that are reported then. -/
def Product.complaints (product : Product) : Except BuildError Unit → List String
  | .ok () => product.failures.map Failure.message
  | .error _ => []

/-- **A build that loads** leaves the files of its product, and reports. -/
theorem run_build_of_load {arguments : Arguments} {world : World} {loaded : Loaded} {settings : Settings}
    (was : world.tree.loadAll arguments = .ok (loaded, settings)) {product : Product}
    (processed : loaded.program.process settings arguments.emit = product) {result : Except BuildError Unit}
    {made : FileTree} (left : leave (arguments.output.getD loaded.directory) (product.files loaded.program.name)
      world.tree = (result, made)) :
    ∃ said, run (build World.disk arguments) world = (product.outcome loaded.program.units.length result,
      ⟨made, said, world.complained ++ product.complaints result⟩) := by
  obtain ⟨said, ran⟩ := run_loadAll arguments world
  rw [was] at ran
  rw [build_eq, run_bind_of_ok ran]
  obtain ⟨saidToo, succeeded, failed⟩ := run_buildLoaded arguments loaded settings { world with said } processed
  obtain ⟨paths, wrote⟩ := run_writeArtifacts_eq (arguments.output.getD loaded.directory) loaded.program.name product
    { world with said := saidToo }
  dsimp only at wrote
  rw [left] at wrote
  cases result with
  | ok _ =>
      obtain ⟨said, built⟩ := succeeded paths _ wrote
      exact ⟨said, built⟩
  | error error =>
      refine ⟨saidToo, (failed error _ wrote).trans ?_⟩
      exact congrArg (Prod.mk _) (congrArg (World.mk _ _) (List.append_nil _).symm)

/-- **A build that does not load** fails for the same reason and leaves the tree as it is. -/
theorem run_build_of_refused {arguments : Arguments} {world : World} {error : BuildError}
    (refused : world.tree.loadAll arguments = .error error) :
    ∃ said, run (build World.disk arguments) world = (.error error, { world with said }) := by
  obtain ⟨said, ran⟩ := run_loadAll arguments world
  rw [refused] at ran
  rw [build_eq]
  exact ⟨said, run_bind_of_error ran⟩

/-- The files of a program that was loaded have proper names, which are those that it leaves. -/
theorem files_of_load {tree : FileTree} {arguments : Arguments} {loaded : Loaded} {settings : Settings}
    (was : tree.loadAll arguments = .ok (loaded, settings)) :
    ∀ file ∈ (loaded.program.process settings arguments.emit).files loaded.program.name,
      IsFileName file.2.name ∧ loaded.program.Leaves file.2.name := by
  have isLoaded : loaded.program.IsLoaded tree := by
    -- The function of the tree and what is known of runs speak of the same run.
    obtain ⟨said, ran⟩ := run_loadAll arguments { tree }
    obtain ⟨result, said', ranToo, known⟩ := loads_all arguments { tree } rfl
    dsimp only at ran
    rw [was] at ran
    obtain ⟨rfl, -⟩ := Prod.mk.inj (ran.symm.trans ranToo)
    exact known _ rfl
  have gated := loaded.program.process_gated settings arguments.emit
  intro file member
  have inArtifacts : file.2 ∈ loaded.program.artifacts (loaded.program.process settings arguments.emit).vmArtifacts
      (loaded.program.process settings arguments.emit).asm (loaded.program.process settings arguments.emit).hack := by
    rw [← gated.artifacts_eq]
    rcases List.mem_append.mp member with member | member
    · obtain ⟨artifact, inCodes, rfl⟩ := List.mem_map.mp member
      exact List.mem_append_left _ inCodes
    · obtain ⟨artifact, inWhole, rfl⟩ := List.mem_map.mp member
      exact List.mem_append_right _ inWhole
  refine ⟨isLoaded.isFileName gated.codes _ inArtifacts, ?_⟩
  rcases List.mem_append.mp inArtifacts with inArtifacts | isWords
  · rcases List.mem_append.mp inArtifacts with isCode | isAsm
    · obtain ⟨source, inClasses, isOf⟩ := exists_partner gated.codes.flip isCode
      obtain ⟨inUnits, isClass⟩ := List.mem_filter.mp inClasses
      exact .inl ⟨source, List.mem_of_mem_filter inUnits, of_decide_eq_true isClass, isOf.name⟩
    · exact .inr (.inl (Program.name_of_mem_file isAsm))
  · exact .inr (.inr (Program.name_of_mem_file isWords))

/-- **Building again.**  A build that is run a second time, in the tree that the first run left, loads the same program
and settings, changes nothing and reports the same failures; and its result is the same, except that a directory that
could not be made because something existed in its place may now be one that cannot be made because that is no
directory.

The settings file that is named must not be written over; nor, next to a class that is called like a dot, may a file
that would be its code. -/
theorem rebuild_idempotent (arguments : Arguments) (world after : World) (first : Except BuildError Unit)
    (proper : world.tree.HasFileNames) (built : run (build World.disk arguments) world = (first, after))
    (kept : ∀ path ∈ arguments.config, after.tree.read path = world.tree.read path)
    (uncovered : world.tree.kind (arguments.input.join "..jack") = .ok .file →
      after.tree.kind (arguments.input.join "..vm") = .ok .file →
        after.tree.read (arguments.input.join "..vm") = world.tree.read (arguments.input.join "..vm")) :
    ∃ second again complaints, run (build World.disk arguments) after = (second, again) ∧
      (second = first ∨ ∃ path, first = .error (.creating path .alreadyExists) ∧
        second = .error (.creating path .notADirectory)) ∧
      (run (loadAll World.disk arguments) after).1 = (run (loadAll World.disk arguments) world).1 ∧
      again.tree.current = after.tree.current ∧
      (∀ location, again.tree.node? location = after.tree.node? location) ∧
      after.complained = world.complained ++ complaints ∧ again.complained = after.complained ++ complaints := by
  have loads (world : World) : (run (loadAll World.disk arguments) world).1 = world.tree.loadAll arguments := by
    obtain ⟨said, ran⟩ := run_loadAll arguments world
    rw [ran]
  rw [loads, loads]
  cases was : world.tree.loadAll arguments with
  | error error =>
      obtain ⟨said, ran⟩ := run_build_of_refused was
      obtain ⟨rfl, rfl⟩ := Prod.mk.inj (built.symm.trans ran)
      obtain ⟨saidToo, ranToo⟩ := @run_build_of_refused arguments { world with said } _ was
      exact ⟨_, _, [], ranToo, .inl rfl, was, rfl, fun _ => rfl, (List.append_nil _).symm, (List.append_nil _).symm⟩
  | ok both =>
      obtain ⟨loaded, settings⟩ := both
      have files := files_of_load was
      cases left : leave (arguments.output.getD loaded.directory)
          ((loaded.program.process settings arguments.emit).files loaded.program.name) world.tree with
      | mk result made =>
          obtain ⟨said, ran⟩ := run_build_of_load was rfl left
          obtain ⟨rfl, rfl⟩ := Prod.mk.inj (built.symm.trans ran)
          -- what is loaded again is what was loaded, and what is left again is there already
          have isName := fun file member => (files file member).1
          have rewrites := rewrites_leave isName left
          have again := rewrites.loadAll proper was (fun name member => by
            obtain ⟨file, inFiles, rfl⟩ := List.mem_map.mp member
            exact (files file inFiles).2) kept fun dotted stands =>
              uncovered (isFile_iff_kind.mp dotted) (isFile_iff_kind.mp stands)
          obtain ⟨second, after, leftAgain, restates, current, nodes⟩ := leave_again isName left
          obtain ⟨saidToo, ranToo⟩ := @run_build_of_load arguments ⟨made, said, _⟩ _ _ again _ rfl _ _ leftAgain
          rcases restates with rfl | ⟨path, rfl, rfl⟩
          · exact ⟨_, _, _, ranToo, .inl rfl, again, current, nodes, rfl, rfl⟩
          · exact ⟨_, _, [], ranToo, .inr ⟨path, rfl, rfl⟩, again, current, nodes, rfl, rfl⟩

/-! ## A class that is built twice -/

private def deskText : String := "class A \x7b function void f() \x7b return; \x7d \x7d"

private def deskTokens : List Token :=
  [.keyword .class_, .identifier "A", .symbol '{', .keyword .function, .keyword .void, .identifier "f", .symbol '(',
    .symbol ')', .symbol '{', .keyword .return_, .symbol ';', .symbol '}', .symbol '}']

private def deskCode : List Vm.Instruction :=
  [.function "A.f" 0, .push .constant 0, .return_, .push .constant 0, .return_]

/-- A directory with a class, and a file next to the directory. -/
private def desk : World where
  tree := { nodes := .ofList [(["f"], Node.file "x".toUTF8), (["p"], Node.directory),
    (["p", "A.jack"], Node.file deskText.toUTF8)] }

private def desked : Program := ⟨"p", true, [⟨"A", .jack, deskText⟩]⟩

private def codeOnly : Arguments := { input := ⟨"p"⟩, emit := .vm }

/-- Where nothing else is in the directory the class is what is loaded. -/
private theorem loadAll_of_list {tree : FileTree} {arguments : Arguments}
    (asked : arguments.input = ⟨"p"⟩ ∧ arguments.config = none) (stands : tree.kind ⟨"p"⟩ = .ok .directory)
    (named : tree.programName ⟨"p"⟩ (fun path => path.name?.map String.ofList) = .ok "p")
    (listed : tree.list ⟨"p"⟩ = .ok ["A.jack"]) (source : tree.sourceAt? ⟨"p"⟩ "A.jack" = some ⟨"p/A.jack"⟩)
    (unit : [⟨"p/A.jack"⟩].mapM tree.loadUnit = .ok desked.units)
    (noSettings : tree.isFile (Path.join ⟨"p"⟩ settingsName) = false) :
    tree.loadAll arguments = .ok (⟨desked, ⟨"p"⟩⟩, {}) := by
  have discovered : tree.discover ⟨"p"⟩ = .ok [⟨"p/A.jack"⟩] := by
    rw [FileTree.discover, listed]
    dsimp only [Except.mapError, bind, Except.bind]
    rw [List.mergeSort_singleton, List.filterMap_cons_some source]
    rfl
  have loaded : tree.load ⟨"p"⟩ = .ok ⟨desked, ⟨"p"⟩⟩ := by
    rw [FileTree.load, stands]
    change tree.loadDirectory ⟨"p"⟩ = _
    rw [FileTree.loadDirectory, named, discovered]
    change [⟨"p/A.jack"⟩].mapM tree.loadUnit >>= _ = _
    rw [unit]
    rfl
  rw [FileTree.loadAll, asked.1, asked.2, loaded]
  change tree.loadSettings none ⟨"p"⟩ >>= _ = _
  rw [FileTree.loadSettings, noSettings]
  rfl

private def deskProduct : Product where
  units := [⟨"A", .jack, deskCode⟩]
  failures := []
  progress := [.compiled "A" 5]

private theorem process_desked : desked.process {} .vm = deskProduct := by
  have read : tokenize deskText = .ok (deskTokens.map (⟨·, 1⟩)) := (tokenize_ofList _).trans rfl
  have units : compileUnits { library := {} } [⟨"A", .jack, deskText⟩] = ([⟨"A", .jack, deskCode⟩], []) :=
    compileUnits_cons_of_ok ((SourceUnit.compile_of_tokens read).trans rfl) rfl
  rw [Program.process, desked.compile_of_units {} units]
  rfl

private theorem hasFileNames_desk : desk.tree.HasFileNames := by
  have plain : IsFileName "f" := ⟨by decide, rfl, by decide⟩
  have directory : IsFileName "p" := ⟨by decide, rfl, by decide⟩
  have file : IsFileName ("A" ++ ".jack") := isFileName_append (by decide) (by decide) (by decide)
  have keys : desk.tree.nodes.keys = [["f"], ["p"], ["p", "A.jack"]] := rfl
  unfold FileTree.HasFileNames
  rw [keys]
  simp only [List.forall_mem_cons]
  exact ⟨⟨plain, nofun⟩, ⟨directory, nofun⟩, ⟨directory, file, nofun⟩, nofun⟩

/-- The code of a class stands next to it when it is built for the second time. -/
theorem class_built_twice : ∃ after again, run (build World.disk codeOnly) desk = (.ok (), after) ∧
    (after.tree.node? ["p", "A.vm"]).isSome = true ∧ run (build World.disk codeOnly) after = (.ok (), again) ∧
    ∀ location, again.tree.node? location = after.tree.node? location := by
  have made : makeFirst (Path.ancestors ⟨"p"⟩) desk.tree = (.ok (), desk.tree) := rfl
  have written : desk.tree.write ((⟨"p"⟩ : Path).join "A.vm") (Vm.render deskCode) =
    .ok (desk.tree.put ["p", "A.vm"] (.file (Vm.render deskCode).toUTF8)) := rfl
  have left : leave ⟨"p"⟩ (deskProduct.files "p") desk.tree =
      (.ok (), desk.tree.put ["p", "A.vm"] (.file (Vm.render deskCode).toUTF8)) := by
    rw [leave, made]
    exact @leaveAll_cons_of_ok ⟨"p"⟩ .vm ⟨"A.vm", Vm.render deskCode⟩ [] desk.tree _ written
  have loaded : desk.tree.loadAll codeOnly = .ok (⟨desked, ⟨"p"⟩⟩, {}) :=
    loadAll_of_list ⟨rfl, rfl⟩ rfl rfl rfl rfl rfl rfl
  obtain ⟨said, built⟩ := run_build_of_load loaded process_desked left
  obtain ⟨second, again, -, ran, same, -, -, nodes, -⟩ :=
    rebuild_idempotent codeOnly desk _ _ hasFileNames_desk built (by rintro _ ⟨⟩) (by rintro ⟨⟩)
  obtain rfl | ⟨path, failed, -⟩ := same
  · exact ⟨_, again, built, rfl, ran, nodes⟩
  · cases failed

private def behindFile : Arguments := { input := ⟨"p"⟩, output := some ⟨"a/../f/X"⟩ }

/-- The directory `a` is made on the way to a directory that would stand behind a file.  The first time it is the file
that cannot be made a directory; the second time the path gets there at once, and leads nowhere. -/
theorem second_failure_restated : desk.tree.HasFileNames ∧
    Request.ofWords ["p", "-o", "a/../f/X"] = .ok (.build behindFile) ∧
    ∃ after again, run (build World.disk behindFile) desk = (.error (.creating ⟨"a/../f/X"⟩ .alreadyExists), after) ∧
      run (build World.disk behindFile) after = (.error (.creating ⟨"a/../f/X"⟩ .notADirectory), again) := by
  have loaded : desk.tree.loadAll behindFile = .ok (⟨desked, ⟨"p"⟩⟩, {}) :=
    loadAll_of_list ⟨rfl, rfl⟩ rfl rfl rfl rfl rfl rfl
  have loadedAgain : (desk.tree.put ["a"] .directory).loadAll behindFile = .ok (⟨desked, ⟨"p"⟩⟩, {}) :=
    loadAll_of_list ⟨rfl, rfl⟩ rfl rfl rfl rfl rfl rfl
  have first : makeFirst (Path.ancestors ⟨"a/../f/X"⟩) desk.tree =
    (.error .alreadyExists, desk.tree.put ["a"] .directory) := rfl
  have second : makeFirst (Path.ancestors ⟨"a/../f/X"⟩) (desk.tree.put ["a"] .directory) =
    (.error .notADirectory, desk.tree.put ["a"] .directory) := rfl
  have left {tree made : FileTree} {cause : DiskError} (files : List (Artifacts × Artifact))
      (failed : makeFirst (Path.ancestors ⟨"a/../f/X"⟩) tree = (.error cause, made)) :
      leave ⟨"a/../f/X"⟩ files tree = (.error (.creating ⟨"a/../f/X"⟩ cause), made) := by
    rw [leave, failed]
  obtain ⟨said, built⟩ := run_build_of_load loaded rfl (left _ first)
  obtain ⟨saidToo, builtAgain⟩ := @run_build_of_load behindFile ⟨_, said, _⟩ _ _ loadedAgain _ rfl _ _ (left _ second)
  exact ⟨hasFileNames_desk, rfl, _, _, built, builtAgain⟩

end JackToolchain

import JackToolchain.Proofs.Build.Loading
import JackToolchain.Proofs.Build.Writing
import JackToolchain.Proofs.Program.Failures

/-!
# Artifacts of builds

Which files a build leaves, and what it reports.

## Main Definitions

* `Program.classes`, `Program.artifacts` — the classes that compile, and the files that a program leaves.
* `Wrote` — files that were written into a directory.
* `buildLoaded` — what is done with what was loaded.

## Main Statements

* `build_eq` — a build loads, and goes on with what was loaded.
* `artifacts_gated_by_success` — a build that cannot load changes nothing; another one writes the artifacts
  of its program and reports what failed.

## Design Notes

That the disk does not fail is assumed of the operations that write only, as the result of the build: what
cannot be loaded need not be there.  If names in the tree held slashes, two files of one directory could have
one path; so the content of a file is that of the last one of its name, and its own if all names are proper.
-/

namespace JackToolchain

open Disk World

/-- Names with endings of which neither ends the other are different. -/
theorem append_ne_append {ending ending' : String} (shorter : ¬ending.toList <:+ ending'.toList)
    (longer : ¬ending'.toList <:+ ending.toList) (name other : String) :
    name ++ ending ≠ other ++ ending' := by
  intro same
  have whole := congrArg String.toList same
  rw [String.toList_append, String.toList_append] at whole
  have ends : ending.toList <:+ name.toList ++ ending.toList := List.suffix_append _ _
  have endsToo : ending'.toList <:+ name.toList ++ ending.toList := whole ▸ List.suffix_append _ _
  exact (List.suffix_or_suffix_of_suffix ends endsToo).elim shorter longer

/-! ## Artifacts -/

/-- The file holds the code of a class. -/
structure Artifact.IsCodeOf (library : Library) (source : SourceUnit) (artifact : Artifact) : Prop where
  name : artifact.name = source.name ++ ".vm"
  content : ∃ before code, before.library = library ∧ (source.compile before).1 = .ok code ∧
    artifact.content = Vm.render code

/-- The classes of a program that compile. -/
def Program.classes (program : Program) (settings : Settings) : List SourceUnit :=
  (program.accepted settings).filter (·.kind = .jack)

/-- The file that is called like the program, if it has content. -/
def Program.file (program : Program) (ending : String) (content : Option String) : List Artifact :=
  (content.map (Artifact.mk (program.name ++ ending))).toList

/-- The files that a program leaves: the code of classes, and its assembly and its words if there are any. -/
def Program.artifacts (program : Program) (codes : List Artifact) (asm words : Option String) :
    List Artifact :=
  codes ++ program.file ".asm" asm ++ program.file ".hack" words

/-- **Files are written** into a directory.  Directories may be made, and nothing else is changed. -/
structure Wrote (directory : Path) (artifacts : List Artifact) (before after : FileTree) : Prop where
  stored : ∃ grown, before.Grown grown ∧ Stored directory artifacts grown after
  read : before.HasFileNames → ∀ artifact ∈ artifacts,
    after.read (directory.join artifact.name) = .ok artifact.content

section Products

variable {program : Program} {settings : Settings} {emit : Emit} {product : Product}

/-- The code in a gated product is that of the classes that compile. -/
theorem Product.IsGated.codes (gated : product.IsGated program settings emit) :
    List.Forall₂ (Artifact.IsCodeOf settings.library) (program.classes settings)
      product.vmArtifacts := by
  have classes : List.Forall₂ (CompiledUnit.IsOf settings.library) (program.classes settings)
      (product.units.filter (·.kind = .jack)) := by
    refine List.rel_filter (fun source unit isOf => ?_) gated.units
    dsimp only
    rw [decide_eq_true_iff, decide_eq_true_iff, isOf.kind]
  refine List.forall₂_map_right_iff.mpr (classes.imp fun source unit isOf => ?_)
  obtain ⟨before, library, compiled⟩ := isOf.code
  exact ⟨congrArg (· ++ ".vm") isOf.name, before, unit.code, library, compiled, rfl⟩

/-- The files of a gated product. -/
theorem Product.IsGated.artifacts_eq (gated : product.IsGated program settings emit) :
    product.artifacts program.name =
      program.artifacts product.vmArtifacts product.asm product.hack := by
  unfold artifacts Program.artifacts programArtifacts
  rw [List.append_assoc]
  cases succeeded : product.succeeded with
  | true => rfl
  | false =>
      have stopped : ¬program.Passes settings emit := fun passes => by
        rw [Product.succeeded, gated.succeeded.mpr passes] at succeeded
        cases succeeded
      have asm : product.asm = none :=
        Option.not_isSome_iff_eq_none.mp fun some => stopped (gated.asm.mp some).2
      have words : product.hack = none :=
        Option.not_isSome_iff_eq_none.mp fun some => stopped (gated.hack.mp some).2
      rw [asm, words]
      rfl

variable {codes : List Artifact} {asm words : Option String}

theorem Program.name_of_mem_file {ending : String} {content : Option String} {artifact : Artifact}
    (member : artifact ∈ program.file ending content) : artifact.name = program.name ++ ending := by
  obtain ⟨text, -, rfl⟩ := Option.map_eq_some_iff.mp (Option.mem_toList.mp member)
  rfl

theorem Program.nodup_names_file (program : Program) (ending : String) (content : Option String) :
    ((program.file ending content).map (·.name)).Nodup := by
  cases content with
  | none => exact .nil
  | some text => exact List.nodup_singleton _

/-- The code of a class is in a file that is called like its unit. -/
theorem names_of_codes
    (codes_of : List.Forall₂ (Artifact.IsCodeOf settings.library) (program.classes settings) codes) :
    codes.map (·.name) = ((program.classes settings).map (·.name)).map (· ++ ".vm") := by
  rw [List.map_map]
  refine List.forall₂_eq_eq_eq ▸ ?_
  exact List.forall₂_map_left_iff.mpr
    (List.forall₂_map_right_iff.mpr (codes_of.flip.imp fun _ _ isOf => isOf.name))

/-- Files of a program that was loaded have proper names… -/
theorem Program.IsLoaded.isFileName {tree : FileTree} (loaded : program.IsLoaded tree)
    (codes_of : List.Forall₂ (Artifact.IsCodeOf settings.library) (program.classes settings) codes) :
    ∀ artifact ∈ program.artifacts codes asm words, IsFileName artifact.name := by
  intro artifact member
  rcases List.mem_append.mp member with member | isWords
  · rcases List.mem_append.mp member with isCode | isAsm
    · obtain ⟨source, inClasses, isOf⟩ := exists_partner codes_of.flip isCode
      rw [isOf.name]
      have inUnits : source ∈ program.units := List.mem_of_mem_filter (List.mem_of_mem_filter inClasses)
      exact isFileName_append (loaded.units source inUnits) (by decide) (by decide)
    · rw [name_of_mem_file isAsm]
      exact isFileName_append loaded.name (by decide) (by decide)
  · rw [name_of_mem_file isWords]
    exact isFileName_append loaded.name (by decide) (by decide)

/-- …and different ones, if names in the tree are proper. -/
theorem Program.IsLoaded.nodup {tree : FileTree} (loaded : program.IsLoaded tree)
    (proper : tree.HasFileNames)
    (codes_of : List.Forall₂ (Artifact.IsCodeOf settings.library) (program.classes settings) codes) :
    ((program.artifacts codes asm words).map (·.name)).Nodup := by
  have distinct : (codes.map (·.name)).Nodup := by
    have part : (program.classes settings).Sublist (program.units.filter (·.kind = .jack)) :=
      List.filter_sublist.filter _
    rw [names_of_codes codes_of]
    exact ((loaded.distinct proper).sublist (part.map (·.name))).map fun name other same =>
      (String.append_left_inj ".vm").mp same
  have isCode {name : String} (member : name ∈ codes.map (·.name)) : ∃ stem, name = stem ++ ".vm" := by
    obtain ⟨stem, -, rfl⟩ := List.mem_map.mp (names_of_codes codes_of ▸ member)
    exact ⟨stem, rfl⟩
  have isWhole {ending name : String} {content : Option String}
      (member : name ∈ (program.file ending content).map (·.name)) : name = program.name ++ ending := by
    obtain ⟨artifact, inFile, rfl⟩ := List.mem_map.mp member
    exact name_of_mem_file inFile
  rw [Program.artifacts, List.map_append, List.map_append]
  -- None of the three endings is an end of another, so files of different kinds differ whatever their stems are.
  refine List.nodup_append.mpr ⟨List.nodup_append.mpr ⟨distinct, program.nodup_names_file _ _, ?_⟩,
    program.nodup_names_file _ _, ?_⟩
  · intro name member other memberToo
    obtain ⟨stem, rfl⟩ := isCode member
    rw [isWhole memberToo]
    exact append_ne_append (by decide) (by decide) _ _
  · intro name member other memberToo
    rw [isWhole memberToo]
    rcases List.mem_append.mp member with member | member
    · obtain ⟨stem, rfl⟩ := isCode member
      exact append_ne_append (by decide) (by decide) _ _
    · rw [isWhole member]
      exact append_ne_append (by decide) (by decide) _ _

/-- Files of a program that are stored are written. -/
theorem Program.IsLoaded.wrote {before grown after : FileTree} {directory : Path}
    (loaded : program.IsLoaded before)
    (codes_of : List.Forall₂ (Artifact.IsCodeOf settings.library) (program.classes settings) codes)
    (isGrown : before.Grown grown)
    (done : store directory grown (program.artifacts codes asm words) = .ok after) :
    Wrote directory (program.artifacts codes asm words) before after := by
  have stored := stored_of_store (loaded.isFileName codes_of) done
  exact ⟨⟨grown, isGrown, stored⟩, fun proper artifact member =>
    stored.read (loaded.nodup proper codes_of) member⟩

end Products

/-! ## Builds -/

/-- What is done with what was loaded. -/
def buildLoaded {m : Type → Type} [Monad m] (disk : Disk m) (arguments : Arguments) (loaded : Loaded)
    (settings : Settings) : ExceptT BuildError m Unit := do
  let product := loaded.program.process settings arguments.emit
  for step in product.progress do
    tell disk arguments.verbose step.message
  let directory := arguments.output.getD loaded.directory
  let written ← writeArtifacts disk directory loaded.program.name product
  for path in written do
    tell disk arguments.verbose s!"Wrote {path.text}"
  report disk loaded.program.units.length product

/-- **A build** loads, and goes on with what was loaded. -/
theorem build_eq {m : Type → Type} [Monad m] [LawfulMonad m] (disk : Disk m) (arguments : Arguments) :
    build disk arguments = loadAll disk arguments >>= fun (loaded, settings) =>
      buildLoaded disk arguments loaded settings := by
  simp only [build, loadAll, buildLoaded, bind_assoc, pure_bind]

/-- A failure of the disk while artifacts are written. -/
def BuildError.IsOfWriting : BuildError → Prop
  | creating _ _ | writing _ _ => True
  | _ => False

/-- **Behind loading** the artifacts are written and the failures reported. -/
theorem run_buildLoaded (arguments : Arguments) (loaded : Loaded) (settings : Settings) (world : World)
    {product : Product} (processed : loaded.program.process settings arguments.emit = product) :
    ∃ said, (∀ paths after, run (writeArtifacts World.disk (arguments.output.getD loaded.directory)
          loaded.program.name product) { world with said } = (.ok paths, after) →
        ∃ said, run (buildLoaded World.disk arguments loaded settings) world =
          (if product.failures = [] then .ok ()
            else .error (.failed product.failures.length loaded.program.units.length),
            { after with said, complained := after.complained ++ product.failures.map Failure.message })) ∧
      ∀ error after, run (writeArtifacts World.disk (arguments.output.getD loaded.directory)
          loaded.program.name product) { world with said } = (.error error, after) →
        run (buildLoaded World.disk arguments loaded settings) world = (.error error, after) := by
  unfold buildLoaded
  rw [processed]
  dsimp only
  obtain ⟨said, told⟩ := says_forIn (fun step => says_tell arguments.verbose step.message)
    product.progress world
  rw [run_bind_of_ok told]
  refine ⟨said, fun paths after written => ?_, fun error after failed => run_bind_of_error failed⟩
  obtain ⟨saidToo, toldToo⟩ := says_forIn
    (fun path : Path => says_tell arguments.verbose s!"Wrote {path.text}") paths after
  rw [run_bind_of_ok written, run_bind_of_ok toldToo, run_report]
  exact ⟨saidToo, rfl⟩

/-- **Artifacts are gated by success.**  If the program or the settings cannot be loaded, a build fails for
the same reason and leaves the tree as it is.  Otherwise, if the disk does not fail while artifacts are
written, there is a gated product, and the files that are written are the code of exactly the classes that
compile, and the assembly and the words of the product; the build succeeds exactly if there are no failures,
and else reports each of them and how many there are, of which there is at least one and at most one for each
unit. -/
theorem artifacts_gated_by_success (arguments : Arguments) (world : World) :
    (∀ error between, run (loadAll World.disk arguments) world = (.error error, between) →
      ∃ said, run (build World.disk arguments) world = (.error error, { world with said })) ∧
    ∀ loaded settings between,
      run (loadAll World.disk arguments) world = (.ok (loaded, settings), between) →
      (∀ error after, run (build World.disk arguments) world = (.error error, after) →
        ¬error.IsOfWriting) →
      ∃ result after codes, ∃ product : Product,
        run (build World.disk arguments) world = (result, after) ∧
        product.IsGated loaded.program settings arguments.emit ∧
        List.Forall₂ (Artifact.IsCodeOf settings.library) (loaded.program.classes settings) codes ∧
        Wrote (arguments.output.getD loaded.directory)
          (loaded.program.artifacts codes product.asm product.hack) world.tree after.tree ∧
        (result = .ok () ↔ product.failures = []) ∧
        (product.failures ≠ [] →
          result = .error (.failed product.failures.length loaded.program.units.length) ∧
          1 ≤ product.failures.length ∧ product.failures.length ≤ loaded.program.units.length) ∧
        after.complained = world.complained ++ product.failures.map Failure.message := by
  obtain ⟨result, said, ran, known⟩ := loads_all arguments world rfl
  change run (loadAll World.disk arguments) world = _ at ran
  rw [ran, build_eq]
  constructor
  · rintro error between same
    obtain ⟨rfl, -⟩ := Prod.mk.inj same
    exact ⟨said, run_bind_of_error ran⟩
  · rintro loaded settings between same undisturbed
    obtain ⟨rfl, -⟩ := Prod.mk.inj same
    rw [run_bind_of_ok ran] at undisturbed ⊢
    have isLoaded := known _ rfl
    have gated := loaded.program.process_gated settings arguments.emit
    obtain ⟨saidToo, succeeded, failed⟩ := run_buildLoaded arguments loaded settings { world with said } rfl
    rcases run_writeArtifacts (arguments.output.getD loaded.directory) loaded.program.name
      (loaded.program.process settings arguments.emit) { world with said := saidToo } with
      ⟨paths, grown, tree, written, isGrown, done⟩ | ⟨cause, after, refused⟩ | ⟨what, cause, after, refused⟩
    · obtain ⟨said, built⟩ := succeeded _ _ written
      rw [gated.artifacts_eq] at done
      refine ⟨_, _, _, _, built, gated, gated.codes, isLoaded.wrote gated.codes isGrown done,
        ?_, fun some => ⟨if_neg some, List.length_pos_iff.mpr some,
          gated.length_failures_le isLoaded.nonempty⟩, rfl⟩
      split
      · rename_i none
        exact iff_of_true rfl none
      · rename_i some
        exact iff_of_false nofun some
    · exact absurd trivial (undisturbed _ after (failed _ after refused))
    · exact absurd trivial (undisturbed _ after (failed _ after refused))

/-! ## A directory with two classes -/

private def soundText : String := "class A \x7b function void f() \x7b return; \x7d \x7d"

private def brokenText : String := "class B \x7b"

private def soundUnit : SourceUnit := ⟨"A", .jack, soundText⟩

private def brokenUnit : SourceUnit := ⟨"B", .jack, brokenText⟩

private def shelved : Program := ⟨"p", true, [soundUnit, brokenUnit]⟩

private def soundTokens : List Token :=
  [.keyword .class_, .identifier "A", .symbol '{', .keyword .function, .keyword .void, .identifier "f", .symbol '(',
    .symbol ')', .symbol '{', .keyword .return_, .symbol ';', .symbol '}', .symbol '}']

private def brokenTokens : List Token := [.keyword .class_, .identifier "B", .symbol '{']

private def soundCode : List Vm.Instruction :=
  [.function "A.f" 0, .push .constant 0, .return_, .push .constant 0, .return_]

/-- The second class ends where its closing brace is wanted. -/
private def openEnded : Error := .unexpected 1 (.spelled "\x7d") none

private theorem compile_soundUnit : soundUnit.compile { library := {} } = (.ok soundCode, { library := {} }) := by
  have read : tokenize soundText = .ok (soundTokens.map (⟨·, 1⟩)) := (tokenize_ofList _).trans rfl
  exact (SourceUnit.compile_of_tokens read).trans rfl

private theorem compile_brokenUnit :
    brokenUnit.compile { library := {} } = (.error openEnded, { library := {} }) := by
  have read : tokenize brokenText = .ok (brokenTokens.map (⟨·, 1⟩)) := (tokenize_ofList _).trans rfl
  exact (SourceUnit.compile_of_tokens read).trans rfl

/-- A directory with a class that compiles and one that does not. -/
private def shelf : World where
  tree := { nodes := .ofList [(["p"], Node.directory), (["p", "A.jack"], Node.file soundText.toUTF8),
    (["p", "B.jack"], Node.file brokenText.toUTF8)] }

private def toWords (input : Path) : Arguments := { input, emit := .hack }

private theorem discover_shelf : run (discover World.disk ⟨"p"⟩) shelf =
    (.ok [⟨"p/A.jack"⟩, ⟨"p/B.jack"⟩], shelf) := by
  have ordered : ["A.jack", "B.jack"].mergeSort (fun a b => decide (a ≤ b)) = ["A.jack", "B.jack"] :=
    List.mergeSort_of_pairwise (by decide)
  have listed : run (attempt (World.disk.list ⟨"p"⟩) (LoadError.listing ⟨"p"⟩)) shelf =
      (.ok ["A.jack", "B.jack"], shelf) := rfl
  rw [discover, run_bind_of_ok listed, ordered]
  rfl

private theorem load_shelf : run (load World.disk false ⟨"p"⟩) shelf =
    (.ok ⟨shelved, ⟨"p"⟩⟩, shelf) := by
  have stands : run (attempt (World.disk.kind ⟨"p"⟩) (LoadError.reading ⟨"p"⟩)) shelf =
      (.ok .directory, shelf) := rfl
  have named : run (programName World.disk ⟨"p"⟩ fun path => path.name?.map String.ofList) shelf =
      (.ok "p", shelf) := rfl
  rw [load, run_bind_of_ok stands]
  dsimp only
  rw [loadDirectory, run_bind_of_ok named, run_bind_of_ok discover_shelf]
  rfl

private theorem loadAll_shelf : run (loadAll World.disk (toWords ⟨"p"⟩)) shelf =
    (.ok (⟨shelved, ⟨"p"⟩⟩, {}), shelf) := by
  have adapted : run ((load World.disk false ⟨"p"⟩).adapt (BuildError.loading ⟨"p"⟩)) shelf =
      ((run (load World.disk false ⟨"p"⟩) shelf).1.mapError (.loading ⟨"p"⟩),
        (run (load World.disk false ⟨"p"⟩) shelf).2) := rfl
  rw [load_shelf] at adapted
  exact (run_bind_of_ok adapted).trans rfl

private def halfBuilt : Product where
  units := [⟨"A", .jack, soundCode⟩]
  failures := [⟨"B", openEnded⟩]
  progress := [.compiled "A" 5]

private theorem process_shelved : shelved.process {} .hack = halfBuilt := by
  have units : compileUnits { library := {} } [soundUnit, brokenUnit] =
      ([⟨"A", .jack, soundCode⟩], [⟨"B", openEnded⟩]) :=
    compileUnits_cons_of_ok compile_soundUnit (compileUnits_cons_of_error compile_brokenUnit rfl)
  rw [Program.process, shelved.compile_of_units {} units]
  rfl

private theorem shelved_parted : shelved.classes {} = [soundUnit] ∧ shelved.refused {} = [brokenUnit] := by
  have sound : soundUnit.compiles {} = true := congrArg (·.1.isOk) compile_soundUnit
  have broken : brokenUnit.compiles {} = false := congrArg (·.1.isOk) compile_brokenUnit
  constructor
  · rw [Program.classes, Program.accepted, shelved, List.filter_cons_of_pos sound,
      List.filter_cons_of_neg (ne_true_of_eq_false broken)]
    rfl
  · rw [Program.refused, shelved, List.filter_cons_of_neg (by rw [sound]; decide),
      List.filter_cons_of_pos (by rw [broken]; rfl)]
    rfl

private theorem build_shelf : (run (build World.disk (toWords ⟨"p"⟩)) shelf).1 =
    .error (.failed 1 2) := by
  obtain ⟨said, succeeded, -⟩ := run_buildLoaded (toWords ⟨"p"⟩) ⟨shelved, ⟨"p"⟩⟩ {} shelf process_shelved
  have made : (World.disk.makeDirectories ⟨"p"⟩).run { shelf with said } =
    (.ok (), { shelf with said }) := rfl
  have written : shelf.tree.write ((⟨"p"⟩ : Path).join "A.vm") (Vm.render soundCode) =
    .ok (shelf.tree.put ["p", "A.vm"] (.file (Vm.render soundCode).toUTF8)) := rfl
  have done : store ⟨"p"⟩ shelf.tree (halfBuilt.artifacts "p") =
      .ok (shelf.tree.put ["p", "A.vm"] (.file (Vm.render soundCode).toUTF8)) := by
    change store ⟨"p"⟩ shelf.tree [⟨"A.vm", Vm.render soundCode⟩] = _
    rw [store, List.foldlM_cons, written]
    rfl
  obtain ⟨paths, wrote⟩ := run_writeArtifacts_of_store made done
  obtain ⟨saidToo, ran⟩ := succeeded paths _ wrote
  rw [build_eq, run_bind_of_ok loadAll_shelf]
  exact congrArg Prod.fst ran

private theorem hasFileNames_shelf : shelf.tree.HasFileNames := by
  have directory : IsFileName "p" := ⟨by decide, rfl, by decide⟩
  have file (name : String) (plain : '/' ∉ name.toList) : IsFileName (name ++ ".jack") :=
    isFileName_append plain (by decide) (by decide)
  have keys : shelf.tree.nodes.keys = [["p"], ["p", "A.jack"], ["p", "B.jack"]] := rfl
  unfold FileTree.HasFileNames
  rw [keys]
  simp only [List.forall_mem_cons]
  exact ⟨⟨directory, nofun⟩, ⟨directory, file "A" (by decide), nofun⟩,
    ⟨directory, file "B" (by decide), nofun⟩, nofun⟩

theorem sound_class_written_broken_reported :
    (∃ said, run (build World.disk (toWords ⟨"q"⟩)) shelf =
      (.error (.loading ⟨"q"⟩ (.reading ⟨"q"⟩ .notFound)), { shelf with said })) ∧
    ∃ after code, run (build World.disk (toWords ⟨"p"⟩)) shelf = (.error (.failed 1 2), after) ∧
      after.tree.read ⟨"p/A.vm"⟩ = .ok (Vm.render code) := by
  refine ⟨(artifacts_gated_by_success (toWords ⟨"q"⟩) shelf).1 _ shelf rfl, ?_⟩
  obtain ⟨result, after, codes, product, ran, gated, codes_of, wrote, -, failed, -⟩ :=
    (artifacts_gated_by_success (toWords ⟨"p"⟩) shelf).2 _ _ _ loadAll_shelf fun error after same => by
      have failed := (congrArg Prod.fst same).symm.trans build_shelf
      obtain rfl := Except.error.inj failed
      exact id
  obtain ⟨classes, refused⟩ := shelved_parted
  have failures := gated.refused (by rw [refused]; exact List.cons_ne_nil _ _)
  rw [refused] at failures
  rw [classes] at codes_of
  have single : product.failures.length = 1 := failures.length_eq.symm
  obtain ⟨rfl, -, -⟩ := failed fun none => by rw [none] at single; cases single
  rw [single] at ran
  obtain ⟨artifact, others, ⟨name, before, code, -, -, content⟩, none, rfl⟩ :=
    List.forall₂_cons_left_iff.mp codes_of
  refine ⟨after, code, ran, ?_⟩
  have read := wrote.read hasFileNames_shelf artifact
    (List.mem_append_left _ (List.mem_append_left _ List.mem_cons_self))
  rw [name, content] at read
  exact read

end JackToolchain

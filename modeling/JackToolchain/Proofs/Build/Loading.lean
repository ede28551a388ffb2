import JackToolchain.Proofs.Disk.World

/-!
# Loading programs

What is known of a program and of settings that were loaded.

## Main Definitions

* `loadAll` — what is loaded in front of everything else.
* `Program.IsLoaded` — what is known of the names in a program that was loaded from a tree.

## Main Statements

* `SourceUnit.path_name_of_ofFile?` — a unit is named like its file, less the extension.
* `loads_program` — loading leaves the tree as it is, and gives units with names of their own.
* `loads_all` — so does loading settings after it.
-/

namespace JackToolchain

open Disk World

/-! ## Units -/

/-- The name and the kind of a unit are told from the path of its file. -/
theorem SourceUnit.ofFile?_eq_some {path : Path} {text : String} {unit : SourceUnit}
    (read : SourceUnit.ofFile? path text = some unit) :
    SourceKind.ofPath? path = some unit.kind ∧ path.stem? = some unit.name := by
  obtain ⟨kind, known, read⟩ := Option.bind_eq_some_iff.mp read
  obtain ⟨name, named, read⟩ := Option.bind_eq_some_iff.mp read
  obtain rfl := Option.some.inj read
  exact ⟨known, named⟩

theorem SourceKind.extension_of_ofPath? {path : Path} {kind : SourceKind}
    (known : SourceKind.ofPath? path = some kind) : path.extension? = some kind.extension := by
  obtain ⟨extension, ended, found⟩ := Option.bind_eq_some_iff.mp known
  unfold SourceKind.ofExtension? at found
  have same := List.find?_some found
  rw [ended, eq_of_beq same]

/-- **A unit is named like its file**, less the extension. -/
theorem SourceUnit.path_name_of_ofFile? {path : Path} {text : String} {unit : SourceUnit}
    (read : SourceUnit.ofFile? path text = some unit) :
    path.name? = some (unit.name ++ "." ++ unit.kind.extension).toList := by
  obtain ⟨known, named⟩ := ofFile?_eq_some read
  obtain ⟨name, found, ended⟩ := Option.bind_eq_some_iff.mp (SourceKind.extension_of_ofPath? known)
  obtain ⟨extension, ended, spelled⟩ := Option.map_eq_some_iff.mp ended
  unfold Path.stem? at named
  rw [found] at named ⊢
  obtain stem := Option.some.inj named
  refine congrArg some ((NameParts.eq_of_extension ended).trans ?_)
  rw [String.toList_append, String.toList_append, ← stem, ← spelled, List.append_assoc]
  simp only [String.toList_ofList]
  rfl

/-- The name of a file in a directory is that of the unit with the extension. -/
theorem SourceUnit.name_of_ofFile? {directory : Path} {name text : String} {unit : SourceUnit}
    (isName : IsFileName name) (read : SourceUnit.ofFile? (directory.join name) text = some unit) :
    name = unit.name ++ "." ++ unit.kind.extension := by
  have named := path_name_of_ofFile? read
  rw [directory.name?_join isName] at named
  exact String.toList_inj.mp (Option.some.inj named)

/-! ## Programs -/

/-- **Loaded programs.**  There are units, no name holds a slash, and if all names in the tree are file names,
no two classes have the same name. -/
structure Program.IsLoaded (tree : FileTree) (program : Program) : Prop where
  nonempty : program.units ≠ []
  name : '/' ∉ program.name.toList
  units : ∀ unit ∈ program.units, '/' ∉ unit.name.toList
  distinct : tree.HasFileNames → ((program.units.filter (·.kind = .jack)).map (·.name)).Nodup

/-- Units from files with different names are different, if they are of one kind. -/
theorem nodup_names_of_files {directory : Path} {names : List String} {units : List SourceUnit}
    (files : List.Forall₂ (fun name unit => ∃ text,
      SourceUnit.ofFile? (directory.join name) text = some unit) names units)
    (distinct : names.Nodup) (proper : ∀ name ∈ names, IsFileName name) (kind : SourceKind) :
    ((units.filter (·.kind = kind)).map (·.name)).Nodup := by
  have spelled : units.map (fun unit => unit.name ++ "." ++ unit.kind.extension) = names := by
    induction files with
    | nil => rfl
    | cons file _ ih =>
        obtain ⟨here, others⟩ := List.forall_mem_cons.mp proper
        obtain ⟨text, read⟩ := file
        rw [List.map_cons, ih distinct.of_cons others, ← SourceUnit.name_of_ofFile? here read]
  have whole : ((units.filter (·.kind = kind)).map
      fun unit => unit.name ++ "." ++ unit.kind.extension).Nodup :=
    (spelled ▸ distinct).sublist (List.filter_sublist.map _)
  -- units of one kind have one extension
  have extended : (units.filter (·.kind = kind)).map (fun unit => unit.name ++ "." ++ unit.kind.extension) =
      ((units.filter (·.kind = kind)).map (·.name)).map (· ++ "." ++ kind.extension) := by
    rw [List.map_map]
    refine List.map_congr_left fun unit member => ?_
    obtain rfl := of_decide_eq_true (List.mem_filter.mp member).2
    rfl
  rw [extended] at whole
  exact whole.of_map

variable {tree : FileTree} {ε : Type}

/-! ## Loading -/

theorem loads_programName (input : Path) {name? : Path → Option String}
    (plain : ∀ path name, name? path = some name → '/' ∉ name.toList) :
    Loads tree (programName World.disk input name?) fun name => '/' ∉ name.toList := by
  refine (Loads.lift (Reads.look (·.canonical input))).bind fun path _ => ?_
  split
  · rename_i name named
    exact Loads.pure (plain path name named)
  · exact Loads.throw _

theorem loads_unit (verbose : Bool) (path : Path) :
    Loads tree (loadUnit World.disk verbose path) fun unit =>
      ∃ text, SourceUnit.ofFile? path text = some unit := by
  refine (Loads.attempt (·.read path) _).bind fun text _ => ?_
  refine (Loads.tell verbose _).bind fun _ _ => ?_
  split
  · rename_i unit read
    exact Loads.pure ⟨text, read⟩
  · exact Loads.throw _

theorem reads_isCodeOfClass (directory path : Path) :
    Reads tree (isCodeOfClass World.disk directory path) fun _ => True := by
  unfold isCodeOfClass
  split
  · exact Reads.isFile _
  · exact Reads.pure trivial

theorem reads_sourceAt (directory : Path) (name : String) :
    Reads tree (sourceAt? World.disk directory name) fun found => ∀ path ∈ found,
      path = directory.join name := by
  unfold sourceAt?
  dsimp only
  split
  · exact Reads.pure nofun
  · refine (Reads.isFile _).bind fun present _ => ?_
    split
    · exact Reads.pure nofun
    · split
      · refine (reads_isCodeOfClass _ _).bind fun covered _ => ?_
        split
        · exact Reads.pure nofun
        · exact Reads.pure fun _ same => (Option.some.inj same).symm
      · exact Reads.pure fun _ same => (Option.some.inj same).symm

/-- **The sources in a directory** are paths to different names in it. -/
theorem loads_discover (directory : Path) :
    Loads tree (discover World.disk directory) fun paths => ∃ names : List String,
      paths = names.map directory.join ∧ names.Nodup ∧
        (tree.HasFileNames → ∀ name ∈ names, IsFileName name) := by
  refine (Loads.attempt (·.list directory) _).bind fun names listed => ?_
  obtain ⟨distinct, proper⟩ := FileTree.names_of_list listed
  refine Loads.lift ((Reads.filterMapM (reads_sourceAt directory)).mono ?_)
  rintro paths ⟨sources, part, joined⟩
  have ordered := List.mergeSort_perm names fun a b => decide (a ≤ b)
  have paths_eq : paths = sources.map directory.join := by
    clear part
    induction joined with
    | nil => rfl
    | cons here _ ih => rw [here, ih, List.map_cons]
  exact ⟨sources, paths_eq, (ordered.nodup_iff.mpr distinct).sublist part,
    fun all name member => proper all name (ordered.mem_iff.mp (part.subset member))⟩

theorem loads_directory (verbose : Bool) (input : Path) :
    Loads tree (loadDirectory World.disk verbose input) fun loaded => loaded.program.IsLoaded tree := by
  unfold loadDirectory
  refine (loads_programName input ?_).bind fun name plain => ?_
  · intro path name named
    obtain ⟨found, isName, rfl⟩ := Option.map_eq_some_iff.mp named
    rw [String.toList_ofList]
    exact Path.slash_not_mem_name isName
  refine (loads_discover input).bind fun paths ⟨names, joined, distinct, proper⟩ => ?_
  refine (Loads.tell verbose _).bind fun _ _ => ?_
  split
  · exact Loads.throw_bind _
  · rename_i nonempty
    refine (Loads.mapM (loads_unit verbose)).bind fun units read => Loads.pure ⟨?_, plain, ?_, ?_⟩
    · rintro rfl
      cases read
      exact nonempty rfl
    · intro unit member
      obtain ⟨path, -, text, ofFile⟩ := exists_partner read.flip member
      exact Path.slash_not_mem_stem (SourceUnit.ofFile?_eq_some ofFile).2
    · intro all
      rw [joined, List.forall₂_map_left_iff] at read
      exact nodup_names_of_files read distinct (proper all) .jack

theorem loads_file (verbose : Bool) (input : Path) :
    Loads tree (loadFile World.disk verbose input) fun loaded => loaded.program.IsLoaded tree := by
  unfold loadFile
  split
  · exact Loads.throw_bind _
  · refine (loads_programName input fun path name => Path.slash_not_mem_stem).bind fun name plain => ?_
    refine (loads_unit verbose input).bind fun unit ⟨text, ofFile⟩ => Loads.pure ⟨?_, plain, ?_, ?_⟩
    · exact List.cons_ne_nil _ _
    · exact List.forall_mem_singleton.mpr
        (Path.slash_not_mem_stem (SourceUnit.ofFile?_eq_some ofFile).2)
    · intro _
      refine ((List.nodup_singleton unit.name).sublist ?_)
      exact List.filter_sublist.map SourceUnit.name

/-- **A program that is loaded** has names of its own, and loading it leaves the tree as it is. -/
theorem loads_program (verbose : Bool) (input : Path) :
    Loads tree (load World.disk verbose input) fun loaded => loaded.program.IsLoaded tree := by
  refine (Loads.attempt (·.kind input) _).bind fun kind _ => ?_
  split
  · exact loads_directory verbose input
  · exact loads_file verbose input

theorem loads_settings (named : Option Path) (directory : Path) :
    Loads tree (loadSettings World.disk named directory) fun _ => True := by
  have fromFile (path : Path) : Loads tree (readSettings World.disk path) fun _ => True := by
    refine (Loads.attempt (·.read path) _).bind fun content _ => ?_
    split
    · exact Loads.pure trivial
    · exact Loads.throw _
  unfold loadSettings
  split
  · exact fromFile _
  · refine (Loads.lift (Reads.isFile _)).bind fun present _ => ?_
    split
    · exact fromFile _
    · exact Loads.pure trivial

/-! ## Programs with settings -/

/-- What is loaded in front of everything else. -/
def loadAll {m : Type → Type} [Monad m] (disk : Disk m) (arguments : Arguments) :
    ExceptT BuildError m (Loaded × Settings) := do
  let loaded ← (load disk arguments.verbose arguments.input).adapt (.loading arguments.input)
  let settings ← loadSettings disk arguments.config loaded.directory
  return (loaded, settings)

theorem loads_all (arguments : Arguments) :
    Loads tree (loadAll World.disk arguments) fun (loaded, _) => loaded.program.IsLoaded tree := by
  refine ((loads_program _ _).adapt _).bind fun loaded known => ?_
  exact (loads_settings _ _).bind fun settings _ => Loads.pure known

end JackToolchain

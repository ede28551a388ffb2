import JackToolchain.Proofs.Build.Reloading
import JackToolchain.Proofs.Program.StaticCells
import Mathlib.Data.String.Basic

/-!
# Discovery

Which sources are found in a directory, and what the units are called that are made from them.

## Main Definitions

* `ListingOrder`, `World.diskIn` — disks that list the names in a directory in any order.
* `FileTree.HasSource`, `FileTree.Picks` — the files that are sources, less the code of classes.
* `FileTree.HasDottedPair` — a class `..jack` with a file `..vm` next to it.
* `SourceUnit.KeptApart` — units whose artifacts and static cells have different names.

## Main Statements

* `load_diskIn` — the order of listing does not matter.
* `FileTree.exists_discover` — the sources that are found.
* `pairwise_keptApart_iff` — units are kept apart, but for those of a dotted pair.
* `directory_loads_unambiguously` — all of this for a directory that is loaded.

## Design Notes

A file `..vm` is the code of a class `..jack` as well as any other, but it is taken for a source: with its extension
cut off the name is `..`, which no extension is put to.  Nothing else is taken for a source that is the code of a class.
-/

namespace JackToolchain

open Disk World FileTree

/-! ## Orders of listing -/

/-- **Orders of listing.**  The names in a directory may be listed in an order that depends on everything. -/
structure ListingOrder where
  arrange : World → Path → List String → List String
  perm : ∀ world path names, (arrange world path names).Perm names

/-- The operations of a disk that lists names in some order. -/
def Disk.World.diskIn (order : ListingOrder) : Disk (StateM World) :=
  { World.disk with list := fun path => do return (← World.disk.list path).map (order.arrange (← get) path) }

section Orders

variable {order : ListingOrder} {names others : List String}

/-- Names in order. -/
theorem pairwise_mergeSort_names (names : List String) :
    (names.mergeSort fun a b => decide (a ≤ b)).Pairwise (· ≤ ·) := by
  have ordered := @List.pairwise_mergeSort String (fun a b => decide (a ≤ b))
    (fun a b c first second => decide_eq_true (String.le_trans (of_decide_eq_true first) (of_decide_eq_true second)))
    (fun a b => by simpa using String.le_total a b) names
  exact ordered.imp of_decide_eq_true

/-- The same names in order are the same. -/
theorem mergeSort_names_congr (same : names.Perm others) :
    (names.mergeSort fun a b => decide (a ≤ b)) = others.mergeSort fun a b => decide (a ≤ b) := by
  refine List.Perm.eq_of_pairwise (fun a b _ _ => String.le_antisymm) (pairwise_mergeSort_names names)
    (pairwise_mergeSort_names others) ?_
  exact (List.mergeSort_perm names _).trans (same.trans (List.mergeSort_perm others _).symm)

/-- **The order of listing** does not matter for the sources that are found… -/
theorem discover_diskIn (order : ListingOrder) (directory : Path) :
    discover (diskIn order) directory = discover World.disk directory := by
  have runs (world : World) : run (discover (diskIn order) directory) world =
      run (discover World.disk directory) world := by
    have listed : run (attempt ((diskIn order).list directory) (LoadError.listing directory)) world =
      (((world.tree.list directory).map (order.arrange world directory)).mapError (.listing directory), world) := rfl
    have listedToo : run (attempt (World.disk.list directory) (LoadError.listing directory)) world =
      ((world.tree.list directory).mapError (.listing directory), world) := rfl
    cases listing : world.tree.list directory with
    | error cause =>
        rw [listing] at listed listedToo
        rw [discover, discover, run_bind_of_error listed, run_bind_of_error listedToo]
    | ok names =>
        rw [listing] at listed listedToo
        rw [discover, discover, run_bind_of_ok listed, run_bind_of_ok listedToo]
        dsimp only
        rw [mergeSort_names_congr (order.perm world directory names)]
        rfl
  exact funext runs

/-- …nor for the program that is loaded. -/
theorem load_diskIn (order : ListingOrder) (verbose : Bool) (input : Path) :
    load (diskIn order) verbose input = load World.disk verbose input := by
  have same : loadDirectory (diskIn order) verbose input = loadDirectory World.disk verbose input := by
    unfold loadDirectory
    rw [discover_diskIn]
    rfl
  unfold load
  rw [same]
  rfl

end Orders

/-! ## Sources among files -/

/-- A file is a source exactly if its name has one of the extensions, with something in front of it. -/
theorem SourceKind.ofPath?_join_iff (directory : Path) {name : String} {kind : SourceKind} (isName : IsFileName name) :
    SourceKind.ofPath? (directory.join name) = some kind ↔
      ∃ stem, stem ≠ "" ∧ name = stem ++ "." ++ kind.extension := by
  have noDot : '.' ∉ kind.extension.toList := by cases kind <;> decide
  constructor
  · intro known
    have ended := SourceKind.extension_of_ofPath? known
    have split := ended
    rw [directory.extension?_join isName] at split
    obtain ⟨extension, split, spelled⟩ := Option.map_eq_some_iff.mp split
    have whole : name = String.ofList (NameParts.ofName name.toList).stem ++ "." ++ kind.extension := by
      refine String.toList_inj.mp ((NameParts.eq_of_extension split).trans ?_)
      rw [String.toList_append, String.toList_append, ← spelled, List.append_assoc]
      simp only [String.toList_ofList]
      rfl
    refine ⟨_, fun empty => ?_, whole⟩
    rw [empty, String.empty_append] at whole
    have none : (directory.join name).extension? = none :=
      whole ▸ directory.extension?_join_ending (whole ▸ isName) rfl noDot
    exact absurd (none.symm.trans ended) nofun
  · rintro ⟨stem, nonempty, rfl⟩
    rw [String.append_assoc] at isName ⊢
    rw [SourceKind.ofPath?, (directory.parts_join_append isName rfl noDot nonempty).2]
    cases kind <;> rfl

/-- A file name is told apart into what is in front of the extension and the kind. -/
theorem SourceKind.spelled_inj {stem other : String} {kind kind' : SourceKind}
    (same : stem ++ "." ++ kind.extension = other ++ "." ++ kind'.extension) : stem = other ∧ kind = kind' := by
  have noDot (kind : SourceKind) : '.' ∉ kind.extension.toList := by cases kind <;> decide
  have spelled := congrArg String.toList same
  simp only [String.toList_append, List.append_assoc] at spelled
  obtain ⟨stems, extensions⟩ := append_cons_inj_of_last (noDot kind) (noDot kind') spelled
  refine ⟨String.toList_inj.mp stems, ?_⟩
  revert extensions
  cases kind <;> cases kind' <;> decide

/-- What is in front of the extension. -/
theorem SourceKind.stem?_join (directory : Path) {stem : String} {kind : SourceKind}
    (isName : IsFileName (stem ++ "." ++ kind.extension)) (nonempty : stem ≠ "") :
    (directory.join (stem ++ "." ++ kind.extension)).stem? = some stem := by
  have noDot : '.' ∉ kind.extension.toList := by cases kind <;> decide
  rw [String.append_assoc] at isName ⊢
  exact (directory.parts_join_append isName rfl noDot nonempty).1

namespace Disk.FileTree

variable {tree : FileTree} {directory : Path} {name stem : String} {kind : SourceKind}

/-- **Sources.**  A regular file stands in the directory whose name ends in the extension of a kind, with something in
front of it. -/
structure HasSource (tree : FileTree) (directory : Path) (stem : String) (kind : SourceKind) : Prop where
  named : stem ≠ ""
  inside : '/' ∉ stem.toList
  stands : tree.kind (directory.join (stem ++ "." ++ kind.extension)) = .ok .file

/-- **Picking.**  A name is to be picked that is one of a source, but not of the code of a class whose source stands
beside it. -/
def Picks (tree : FileTree) (directory : Path) (name : String) : Prop :=
  ∃ stem kind, name = stem ++ "." ++ kind.extension ∧ tree.HasSource directory stem kind ∧
    (kind = .vm → ¬ tree.HasSource directory stem .jack)

/-- **Dotted pairs.**  The code of a class stands beside its source, and the name of the class is a dot. -/
def HasDottedPair (tree : FileTree) (directory : Path) : Prop :=
  tree.HasSource directory "." .jack ∧ tree.HasSource directory "." .vm

theorem HasSource.isFileName (source : tree.HasSource directory stem kind) :
    IsFileName (stem ++ "." ++ kind.extension) := by
  rw [String.append_assoc]
  cases kind with
  | jack => exact isFileName_append source.inside (by decide) (by decide)
  | vm => exact isFileName_append source.inside (by decide) (by decide)

/-- A file is the code of a class beside it, unless the name of the class is a dot. -/
theorem isCodeOfClass_iff (named : stem ≠ "") (isName : IsFileName (stem ++ "." ++ kind.extension)) :
    tree.isCodeOfClass directory (directory.join (stem ++ "." ++ kind.extension)) = true ↔
      stem ≠ "." ∧ tree.HasSource directory stem .jack := by
  have hasStem : (directory.join (stem ++ "." ++ kind.extension)).stem? = some stem :=
    SourceKind.stem?_join directory isName named
  have called : (directory.join (stem ++ "." ++ kind.extension)).nameWith? SourceKind.jack.extension =
      if stem = "." then none else some (stem ++ "." ++ SourceKind.jack.extension) := by
    rw [Path.nameWith?, hasStem]
    rfl
  rw [isCodeOfClass, called]
  by_cases dot : stem = "."
  · rw [if_pos dot]
    exact iff_of_false Bool.false_ne_true fun both => both.1 dot
  · rw [if_neg dot]
    exact isFile_iff_kind.trans
      ⟨fun stands => ⟨dot, named, Path.slash_not_mem_stem hasStem, stands⟩, fun both => both.2.stands⟩

/-- A file with an extension is picked up, unless it is the code of a class. -/
theorem isSome_sourceAt?_of_kind (known : SourceKind.ofPath? (directory.join name) = some kind) :
    (tree.sourceAt? directory name).isSome = true ↔
      tree.isFile (directory.join name) = true ∧
        (kind = .vm → tree.isCodeOfClass directory (directory.join name) ≠ true) := by
  rw [sourceAt?, known]
  dsimp only
  cases tree.isFile (directory.join name) with
  | false => exact iff_of_false Bool.false_ne_true fun both => Bool.false_ne_true both.1
  | true =>
      cases kind with
      | jack => exact iff_of_true rfl ⟨rfl, fun isVm => absurd isVm (by decide)⟩
      | vm =>
          cases tree.isCodeOfClass directory (directory.join name) with
          | false => exact iff_of_true rfl ⟨rfl, fun _ => Bool.false_ne_true⟩
          | true => exact iff_of_false Bool.false_ne_true fun both => both.2 rfl rfl

/-- **What is picked up**: the names that are to be, and with a dotted pair also that of its code. -/
theorem isSome_sourceAt?_iff (isName : IsFileName name) : (tree.sourceAt? directory name).isSome = true ↔
    tree.Picks directory name ∨ name = "..vm" ∧ tree.HasDottedPair directory := by
  constructor
  · intro source
    cases known : SourceKind.ofPath? (directory.join name) with
    | none =>
        rw [sourceAt?, known] at source
        exact absurd source Bool.false_ne_true
    | some kind =>
        obtain ⟨stands, uncovered⟩ := (isSome_sourceAt?_of_kind known).mp source
        obtain ⟨stem, named, rfl⟩ := (SourceKind.ofPath?_join_iff directory isName).mp known
        have inside : '/' ∉ stem.toList := Path.slash_not_mem_stem (SourceKind.stem?_join directory isName named)
        have hasSource : tree.HasSource directory stem kind := ⟨named, inside, isFile_iff_kind.mp stands⟩
        -- the code of a class was passed over, unless nothing can be put to its name
        by_cases pair : kind = .vm ∧ tree.HasSource directory stem .jack
        · obtain ⟨rfl, beside⟩ := pair
          have dot : stem = "." := by
            by_contra other
            exact uncovered rfl ((isCodeOfClass_iff named isName).mpr ⟨other, beside⟩)
          subst dot
          exact .inr ⟨rfl, beside, hasSource⟩
        · exact .inl ⟨stem, kind, rfl, hasSource, fun isVm beside => pair ⟨isVm, beside⟩⟩
  · rintro (⟨stem, kind, rfl, source, alone⟩ | ⟨rfl, -, source⟩)
    · have known := (SourceKind.ofPath?_join_iff directory isName).mpr ⟨stem, source.named, rfl⟩
      refine (isSome_sourceAt?_of_kind known).mpr ⟨isFile_iff_kind.mpr source.stands, fun isVm covered => ?_⟩
      exact alone isVm ((isCodeOfClass_iff source.named isName).mp covered).2
    · have known : SourceKind.ofPath? (directory.join "..vm") = some .vm :=
        (SourceKind.ofPath?_join_iff directory isName).mpr ⟨".", source.named, rfl⟩
      refine (isSome_sourceAt?_of_kind known).mpr ⟨isFile_iff_kind.mpr source.stands, fun _ covered => ?_⟩
      exact ((isCodeOfClass_iff source.named source.isFileName).mp covered).1 rfl

/-- Names that are picked up are names of files. -/
theorem isFileName_of_picks (picked : tree.Picks directory name ∨ name = "..vm" ∧ tree.HasDottedPair directory) :
    IsFileName name := by
  rcases picked with ⟨stem, kind, rfl, source, -⟩ | ⟨rfl, -, source⟩
  · exact source.isFileName
  · exact source.isFileName

/-- The paths that are picked up are those of the names. -/
theorem filterMap_sourceAt? (names : List String) : names.filterMap (tree.sourceAt? directory) =
    (names.filter fun name => (tree.sourceAt? directory name).isSome).map directory.join := by
  induction names with
  | nil => rfl
  | cons name rest ih =>
      cases source : tree.sourceAt? directory name with
      | none =>
          rw [List.filterMap_cons_none source, List.filter_cons_of_neg (by rw [source]; exact Bool.false_ne_true), ih]
      | some path =>
          obtain ⟨rfl, -⟩ := isFile_of_sourceAt? source
          rw [List.filterMap_cons_some source, List.filter_cons_of_pos (by rw [source]; rfl), List.map_cons, ih]

/-- **The sources in a directory**, in the order of their names. -/
theorem exists_discover (proper : tree.HasFileNames) (stands : tree.kind directory = .ok .directory) :
    ∃ names : List String, tree.discover directory = .ok (names.map directory.join) ∧ names.Pairwise (· < ·) ∧
      ∀ name, name ∈ names ↔ tree.Picks directory name ∨ name = "..vm" ∧ tree.HasDottedPair directory := by
  obtain ⟨location, node, resolved, here, isDirectory⟩ := kind_eq_ok stands
  obtain rfl : node = .directory := by
    cases node with
    | directory => rfl
    | file content => exact absurd isDirectory nofun
  obtain ⟨listing, listed, known⟩ := exists_list resolved here
  obtain ⟨distinct, isNames⟩ := names_of_list listed
  have ordered := List.mergeSort_perm listing fun a b => decide (a ≤ b)
  refine ⟨(listing.mergeSort fun a b => decide (a ≤ b)).filter fun name => (tree.sourceAt? directory name).isSome,
    ?_, ?_, fun name => ?_⟩
  · rw [discover, listed]
    exact congrArg Except.ok (filterMap_sourceAt? _)
  · have sorted := (pairwise_mergeSort_names listing).and (ordered.nodup_iff.mpr distinct)
    refine (sorted.imp fun both => ?_).filter _
    exact String.not_le.mp fun behind => both.2 (String.le_antisymm both.1 behind)
  · rw [List.mem_filter, ordered.mem_iff]
    constructor
    · rintro ⟨member, source⟩
      exact (isSome_sourceAt?_iff (isNames proper name member)).mp source
    · -- what is a file stands in the directory, and so is listed
      intro picked
      have isName := isFileName_of_picks picked
      have source := (isSome_sourceAt?_iff isName).mpr picked
      obtain ⟨path, found⟩ := Option.isSome_iff_exists.mp source
      have isFile := (isFile_of_sourceAt? found).2
      exact ⟨(known name).mpr (node?_of_isFile (leads_of_resolve resolved here) isName isFile), source⟩

end Disk.FileTree

/-! ## Units -/

/-- The name of the file of a unit. -/
def SourceUnit.fileName (unit : SourceUnit) : String := unit.name ++ "." ++ unit.kind.extension

/-- **Units kept apart.**  They have different names, and so have their artifacts and their static cells. -/
structure SourceUnit.KeptApart (one two : SourceUnit) : Prop where
  names : one.name ≠ two.name
  artifacts : one.name ++ ".vm" ≠ two.name ++ ".vm"
  statics : ∀ index index', staticName one.name index ≠ staticName two.name index'

/-- Different names are enough. -/
theorem SourceUnit.keptApart_iff {one two : SourceUnit} : one.KeptApart two ↔ one.name ≠ two.name := by
  refine ⟨KeptApart.names, fun different => ⟨different, fun same => ?_, fun index index' same => ?_⟩⟩
  · exact different (String.append_left_inj _ |>.mp same)
  · exact different (staticName_inj.mp same).1

section Units

variable {tree : FileTree} {directory : Path} {names : List String} {units : List SourceUnit}

/-- The units of files have the names of the files. -/
theorem map_fileName_of_mapM (isNames : ∀ name ∈ names, IsFileName name)
    (loaded : (names.map directory.join).mapM tree.loadUnit = .ok units) : units.map SourceUnit.fileName = names := by
  induction names generalizing units with
  | nil =>
      obtain rfl := Except.ok.inj loaded
      rfl
  | cons name rest ih =>
      obtain ⟨isName, areNames⟩ := List.forall_mem_cons.mp isNames
      rw [List.map_cons, List.mapM_cons] at loaded
      obtain ⟨unit, here, loaded⟩ := both_ok loaded
      obtain ⟨others, behind, loaded⟩ := both_ok loaded
      obtain rfl := Except.ok.inj loaded
      obtain ⟨text, -, isUnit⟩ := loadUnit_eq_ok here
      rw [List.map_cons, ih areNames behind, SourceUnit.fileName, ← SourceUnit.name_of_ofFile? isName isUnit]

section Found

variable (known : ∀ name, name ∈ names ↔ tree.Picks directory name ∨ name = "..vm" ∧ tree.HasDottedPair directory)

include known

/-- Only with a dotted pair are a class and its code both found. -/
theorem hasDottedPair_of_found {stem : String} (found : ∀ kind : SourceKind, stem ++ "." ++ kind.extension ∈ names) :
    tree.HasDottedPair directory := by
  rcases (known _).mp (found .vm) with ⟨_, _, spelled, -, alone⟩ | ⟨-, pair⟩
  · obtain ⟨rfl, rfl⟩ := SourceKind.spelled_inj spelled
    rcases (known _).mp (found .jack) with ⟨_, _, spelledToo, source, -⟩ | ⟨-, pair⟩
    · obtain ⟨rfl, rfl⟩ := SourceKind.spelled_inj spelledToo
      exact absurd source (alone rfl)
    · exact pair
  · exact pair

/-- **Units are kept apart**, but for those of a dotted pair. -/
theorem pairwise_keptApart_iff (distinct : names.Nodup) (files : units.map SourceUnit.fileName = names) :
    units.Pairwise SourceUnit.KeptApart ↔ ¬ tree.HasDottedPair directory := by
  subst files
  have byName : units.Pairwise SourceUnit.KeptApart ↔ (units.map (·.name)).Nodup := by
    rw [List.Nodup, List.pairwise_map]
    exact List.Pairwise.iff fun _ _ => SourceUnit.keptApart_iff
  rw [byName]
  constructor
  · intro different pair
    have foundClass := (known ("." ++ "." ++ SourceKind.jack.extension)).mpr (.inl ⟨_, _, rfl, pair.1, nofun⟩)
    have foundCode := (known "..vm").mpr (.inr ⟨rfl, pair⟩)
    obtain ⟨unit, inUnits, spelled⟩ := List.mem_map.mp foundClass
    obtain ⟨unit', inUnits', spelled'⟩ := List.mem_map.mp foundCode
    obtain ⟨name, isClass⟩ := SourceKind.spelled_inj spelled
    have spelledCode : unit'.name ++ "." ++ unit'.kind.extension = "." ++ "." ++ SourceKind.vm.extension := spelled'
    obtain ⟨name', isCode⟩ := SourceKind.spelled_inj spelledCode
    have same := List.inj_on_of_nodup_map different inUnits inUnits' (name.trans name'.symm)
    rw [same] at isClass
    exact absurd (isClass.symm.trans isCode) nofun
  · intro noPair
    refine List.Nodup.map_on (fun unit inUnits unit' inUnits' same => ?_) distinct.of_map
    by_cases kinds : unit.kind = unit'.kind
    · have spelled : unit.fileName = unit'.fileName := by rw [SourceUnit.fileName, SourceUnit.fileName, same, kinds]
      exact List.inj_on_of_nodup_map distinct inUnits inUnits' spelled
    · -- one of the two is a class, and the other is its code
      have found (kind : SourceKind) : unit.name ++ "." ++ kind.extension ∈ units.map SourceUnit.fileName := by
        have either : kind = unit.kind ∨ kind = unit'.kind := by
          revert kinds
          cases kind <;> cases unit.kind <;> cases unit'.kind <;> decide
        rcases either with rfl | rfl
        · exact List.mem_map_of_mem inUnits
        · rw [same]
          exact List.mem_map_of_mem inUnits'
      exact absurd (hasDottedPair_of_found known found) noPair

end Found

end Units

/-! ## Directories that are loaded -/

/-- What is found is the function of the tree. -/
theorem run_discover (directory : Path) (world : World) :
    run (discover World.disk directory) world = (world.tree.discover directory, world) := by
  have listed : run (attempt (World.disk.list directory) (LoadError.listing directory)) world =
    ((world.tree.list directory).mapError (.listing directory), world) := rfl
  rw [discover, FileTree.discover]
  cases listing : world.tree.list directory with
  | error cause =>
      rw [listing] at listed
      rw [run_bind_of_error listed]
      rfl
  | ok names =>
      rw [listing] at listed
      rw [run_bind_of_ok listed]
      dsimp only
      rw [run, ExceptT.run_lift, StateT.run_map, Sees.filterMapM (sees_sourceAt directory)]
      rfl

/-- The units of a directory that is loaded are those of the sources that are found. -/
theorem mapM_of_loaded {order : ListingOrder} {verbose : Bool} {world after : World} {directory : Path}
    {paths : List Path} {loaded : Loaded} (stands : world.tree.kind directory = .ok .directory)
    (discovered : world.tree.discover directory = .ok paths)
    (ran : run (load (diskIn order) verbose directory) world = (.ok loaded, after)) :
    paths.mapM world.tree.loadUnit = .ok loaded.program.units := by
  obtain ⟨said, ranToo⟩ := yields_program verbose directory world
  rw [load_diskIn] at ran
  have was : world.tree.load directory = .ok loaded := congrArg Prod.fst (ranToo.symm.trans ran)
  rcases load_eq_ok was with ⟨-, was⟩ | ⟨isFile, -⟩
  · obtain ⟨name, -, was⟩ := both_ok was
    obtain ⟨paths', discovered', was⟩ := both_ok was
    obtain rfl := Except.ok.inj (discovered.symm.trans discovered')
    split at was
    · exact absurd was nofun
    · obtain ⟨units, loadedUnits, was⟩ := both_ok was
      obtain rfl := Except.ok.inj was
      exact loadedUnits
  · exact absurd (stands.symm.trans isFile) nofun

/-- **A directory is loaded unambiguously**, but for a dotted pair.  In whatever order its names are listed, the same
sources are found, in the order of their names and without repetition; they are the files with the extensions of
sources, less the code of classes that stand beside it, exactly if there is no dotted pair, and otherwise the code of
that one is found as well.  The units that are made of them are kept apart exactly if there is no dotted pair. -/
theorem directory_loads_unambiguously (world : World) (directory : Path) (proper : world.tree.HasFileNames)
    (stands : world.tree.kind directory = .ok .directory) :
    ∃ names : List String, names.Pairwise (· < ·) ∧
      (∀ order, run (discover (diskIn order) directory) world = (.ok (names.map directory.join), world)) ∧
      (∀ name, name ∈ names ↔
        world.tree.Picks directory name ∨ name = "..vm" ∧ world.tree.HasDottedPair directory) ∧
      ((∀ name, name ∈ names ↔ world.tree.Picks directory name) ↔ ¬ world.tree.HasDottedPair directory) ∧
      ∀ order verbose loaded after, run (load (diskIn order) verbose directory) world = (.ok loaded, after) →
        loaded.program.units.map SourceUnit.fileName = names ∧
          (loaded.program.units.Pairwise SourceUnit.KeptApart ↔ ¬ world.tree.HasDottedPair directory) := by
  obtain ⟨names, discovered, sorted, known⟩ := exists_discover proper stands
  refine ⟨names, sorted, fun order => ?_, known, ⟨?_, ?_⟩, ?_⟩
  · rw [discover_diskIn, run_discover, discovered]
  · intro asClaimed pair
    obtain ⟨stem, kind, spelled, source, alone⟩ := (asClaimed _).mp ((known _).mpr (.inr ⟨rfl, pair⟩))
    have spelledCode : "." ++ "." ++ SourceKind.vm.extension = stem ++ "." ++ kind.extension := spelled
    obtain ⟨rfl, rfl⟩ := SourceKind.spelled_inj spelledCode
    exact alone rfl pair.1
  · intro noPair name
    rw [known, or_iff_left fun both => noPair both.2]
  · intro order verbose loaded after ran
    have units := mapM_of_loaded stands discovered ran
    have files := map_fileName_of_mapM (fun name member => isFileName_of_picks ((known name).mp member)) units
    have distinct : names.Nodup := sorted.imp fun below => ne_of_lt below
    exact ⟨files, pairwise_keptApart_iff known distinct files⟩

/-! ## A directory with everything in it -/

private def classText : String := "class A \x7b function void f() \x7b return; \x7d \x7d"

/-- A directory with a class and its code, code without a class, and a directory that is called like a class. -/
private def crowd : World where
  tree := { nodes := .ofList [(["p"], Node.directory), (["p", "A.jack"], Node.file classText.toUTF8),
    (["p", "A.vm"], Node.file "".toUTF8), (["p", "B.vm"], Node.file "".toUTF8), (["p", "C.jack"], Node.directory)] }

private theorem discover_crowd : run (discover World.disk ⟨"p"⟩) crowd =
    (.ok [⟨"p/A.jack"⟩, ⟨"p/B.vm"⟩], crowd) := by
  have ordered : ["A.jack", "A.vm", "B.vm", "C.jack"].mergeSort (fun a b => decide (a ≤ b)) =
      ["A.jack", "A.vm", "B.vm", "C.jack"] :=
    List.mergeSort_of_pairwise (by decide)
  have listed : run (attempt (World.disk.list ⟨"p"⟩) (LoadError.listing ⟨"p"⟩)) crowd =
      (.ok ["A.jack", "A.vm", "B.vm", "C.jack"], crowd) := rfl
  rw [discover, run_bind_of_ok listed, ordered]
  rfl

private theorem hasFileNames_crowd : crowd.tree.HasFileNames := by
  have keys : crowd.tree.nodes.keys =
      [["p"], ["p", "A.jack"], ["p", "A.vm"], ["p", "B.vm"], ["p", "C.jack"]] := rfl
  rw [FileTree.HasFileNames, keys]
  decide

/-- The code of a class and a directory are passed over, in whatever order everything is listed. -/
theorem class_found_without_its_code :
    (∀ order, run (discover (diskIn order) ⟨"p"⟩) crowd = (.ok [⟨"p/A.jack"⟩, ⟨"p/B.vm"⟩], crowd)) ∧
      ∀ order verbose loaded after, run (load (diskIn order) verbose ⟨"p"⟩) crowd = (.ok loaded, after) →
        loaded.program.units.Pairwise SourceUnit.KeptApart := by
  obtain ⟨names, -, found, -, -, units⟩ := directory_loads_unambiguously crowd ⟨"p"⟩ hasFileNames_crowd rfl
  have noPair : ¬ crowd.tree.HasDottedPair ⟨"p"⟩ := by
    intro dotted
    have missing : crowd.tree.kind ⟨"p/..jack"⟩ = .error .notFound := rfl
    exact absurd (missing.symm.trans dotted.1.stands) nofun
  refine ⟨fun order => ?_, fun order verbose loaded after ran => (units order verbose loaded after ran).2.mpr noPair⟩
  rw [discover_diskIn, discover_crowd]

/-! ## A class that is called like a dot -/

private def pair : World where
  tree := { nodes := .ofList [(["p"], Node.directory), (["p", "..jack"], Node.file classText.toUTF8),
    (["p", "..vm"], Node.file "".toUTF8)] }

/-- The code of the class is loaded with it, and under its name. -/
theorem dotted_class_found_with_its_code : pair.tree.HasFileNames ∧ pair.tree.kind ⟨"p/..jack"⟩ = .ok .file ∧
    run (discover World.disk ⟨"p"⟩) pair = (.ok [⟨"p/..jack"⟩, ⟨"p/..vm"⟩], pair) ∧
    run (load World.disk false ⟨"p"⟩) pair =
      (.ok ⟨⟨"p", true, [⟨".", .jack, classText⟩, ⟨".", .vm, ""⟩]⟩, ⟨"p"⟩⟩, pair) := by
  have ordered : ["..jack", "..vm"].mergeSort (fun a b => decide (a ≤ b)) = ["..jack", "..vm"] :=
    List.mergeSort_of_pairwise (by decide)
  have listed : run (attempt (World.disk.list ⟨"p"⟩) (LoadError.listing ⟨"p"⟩)) pair =
      (.ok ["..jack", "..vm"], pair) := rfl
  have discovered : run (discover World.disk ⟨"p"⟩) pair = (.ok [⟨"p/..jack"⟩, ⟨"p/..vm"⟩], pair) := by
    rw [discover, run_bind_of_ok listed, ordered]
    rfl
  have stands : run (attempt (World.disk.kind ⟨"p"⟩) (LoadError.reading ⟨"p"⟩)) pair = (.ok .directory, pair) := rfl
  have named : run (programName World.disk ⟨"p"⟩ fun path => path.name?.map String.ofList) pair = (.ok "p", pair) := rfl
  have keys : pair.tree.nodes.keys = [["p"], ["p", "..jack"], ["p", "..vm"]] := rfl
  refine ⟨?_, rfl, discovered, ?_⟩
  · rw [FileTree.HasFileNames, keys]
    decide
  · rw [load, run_bind_of_ok stands]
    dsimp only
    rw [loadDirectory, run_bind_of_ok named, run_bind_of_ok discovered]
    rfl

end JackToolchain

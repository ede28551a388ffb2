import JackToolchain.Proofs.Build.Artifacts
import JackToolchain.Proofs.Build.Leaving
import JackToolchain.Proofs.Build.Reading

/-!
# Loading again

What is loaded from a tree in which the artifacts of a program have been written.

## Main Definitions

* `EndsAsArtifact`, `IsArtifactName` — the names of artifacts, and of artifacts next to the sources they are made from.
* `Program.Leaves` — the names of the files that a program leaves.

## Main Statements

* `FileTree.discover_congr` — the sources in a directory depend on what each name stands for, and on nothing else.
* `IsArtifactName.no_source` — artifacts are no sources, or they are the code of a class that stands next to them.
* `Rewrites.sourceAt?_eq`, `Rewrites.read_source` — no artifact is picked up, and no source is written over.
* `Rewrites.loadAll` — a program and its settings are loaded again as they were.

## Design Notes

Where the artifacts are put does not matter: only their names are compared with those of what is read.  A file `..vm`
is the one exception.  It is the code of a class whose name is a dot, but it is taken for a source; so next to such a
class it is assumed to be read as it was.
-/

namespace JackToolchain

open Disk World FileTree

/-! ## Sources -/

/-- **What is kept of names in order** is the same, if every name of which something is kept is in both lists. -/
theorem filterMap_mergeSort_congr {α : Type} {f : String → Option α} {names others : List String}
    (distinct : names.Nodup) (distinctToo : others.Nodup)
    (there : ∀ name ∈ names, (f name).isSome = true → name ∈ others)
    (here : ∀ name ∈ others, (f name).isSome = true → name ∈ names) :
    (names.mergeSort fun a b => decide (a ≤ b)).filterMap f =
      (others.mergeSort fun a b => decide (a ≤ b)).filterMap f := by
  have kept (list : List String) : list.filterMap f = (list.filter fun name => (f name).isSome).filterMap f := by
    rw [List.filterMap_filter]
    refine List.filterMap_congr fun name _ => ?_
    cases f name <;> rfl
  have sorted (list : List String) :
      ((list.mergeSort fun a b => decide (a ≤ b)).filter fun name => (f name).isSome).Pairwise (· ≤ ·) := by
    have ordered := @List.pairwise_mergeSort String (fun a b => decide (a ≤ b))
      (fun a b c first second => decide_eq_true (String.le_trans (of_decide_eq_true first) (of_decide_eq_true second)))
      (fun a b => by simpa using String.le_total a b) list
    exact (ordered.imp of_decide_eq_true).filter _
  have nodup {list : List String} (distinct : list.Nodup) :
      ((list.mergeSort fun a b => decide (a ≤ b)).filter fun name => (f name).isSome).Nodup :=
    ((List.mergeSort_perm list _).nodup_iff.mpr distinct).filter _
  rw [kept (names.mergeSort _), kept (others.mergeSort _)]
  refine congrArg _ (List.Perm.eq_of_pairwise (fun a b _ _ => String.le_antisymm) (sorted names) (sorted others) ?_)
  refine (List.perm_ext_iff_of_nodup (nodup distinct) (nodup distinctToo)).mpr fun name => ?_
  rw [List.mem_filter, List.mem_filter, (List.mergeSort_perm names _).mem_iff, (List.mergeSort_perm others _).mem_iff]
  exact and_congr_left fun source => ⟨fun member => there name member source, fun member => here name member source⟩

namespace Disk.FileTree

variable {tree one two : FileTree} {path : Path} {location : Location}

/-- A source is a file. -/
theorem isFile_of_sourceAt? {directory : Path} {name : String} (source : one.sourceAt? directory name = some path) :
    path = directory.join name ∧ one.isFile (directory.join name) = true := by
  unfold sourceAt? at source
  split at source
  · exact absurd source nofun
  · split at source
    · exact absurd source nofun
    · rename_i stands
      refine ⟨?_, (Bool.not_eq_false _).mp stands⟩
      split at source
      · split at source
        · exact absurd source nofun
        · exact (Option.some.inj source).symm
      · exact (Option.some.inj source).symm

/-- **The same sources** are found in a directory in which each name stands for the same. -/
theorem discover_congr {directory : Path} (resolved : one.resolve directory = .ok location)
    (stands : one.node? location = some .directory) (keeps : KeepsDirectories one two)
    (proper : one.HasFileNames) (properToo : two.HasFileNames)
    (same : ∀ name, IsFileName name → two.sourceAt? directory name = one.sourceAt? directory name) :
    two.discover directory = one.discover directory := by
  have leads := leads_of_resolve resolved stands
  obtain ⟨names, listed, known⟩ := exists_list resolved stands
  obtain ⟨others, listedToo, knownToo⟩ := exists_list (keeps.resolve resolved) (keeps.directories location stands)
  obtain ⟨distinct, isNames⟩ := names_of_list listed
  obtain ⟨distinctToo, areNames⟩ := names_of_list listedToo
  have isName := isNames proper
  have isNameToo := areNames properToo
  have sources : (others.mergeSort fun a b => decide (a ≤ b)).filterMap (two.sourceAt? directory) =
      (others.mergeSort fun a b => decide (a ≤ b)).filterMap (one.sourceAt? directory) :=
    List.filterMap_congr fun name member =>
      same name (isNameToo name ((List.mergeSort_perm others _).mem_iff.mp member))
  rw [discover, discover, listed, listedToo]
  refine congrArg Except.ok (sources.trans (filterMap_mergeSort_congr distinctToo distinct ?_ ?_))
  · intro name member source
    obtain ⟨path, found⟩ := Option.isSome_iff_exists.mp source
    exact (known name).mpr (node?_of_isFile leads (isNameToo name member) (isFile_of_sourceAt? found).2)
  · intro name member source
    obtain ⟨path, found⟩ := Option.isSome_iff_exists.mp source
    rw [← same name (isName name member)] at found
    exact (knownToo name).mpr (node?_of_isFile (keeps.leads leads) (isName name member) (isFile_of_sourceAt? found).2)

end Disk.FileTree

/-! ## Artifacts among sources -/

/-- What is written under other names leaves a file as it is. -/
theorem Rewrites.sameFile_of {names : List String} {before after : FileTree} (rewrites : Rewrites names before after)
    {path : Path} (led : after.resolve path = before.resolve path)
    (apart : ∀ location, before.resolve path = .ok location → ∀ name ∈ names, location.getLast? ≠ some name) :
    SameFile before after path := by
  refine sameFile_of_nodes led fun location resolved => ?_
  rcases rewrites.nodes location with same | made | ⟨⟨name, member, last⟩, -, -⟩
  · exact .inl same
  · exact .inr made
  · exact absurd last (apart location resolved name member)

/-- No file goes. -/
theorem Rewrites.isFile_kept {names : List String} {before after : FileTree} (rewrites : Rewrites names before after)
    {path : Path} (stood : before.isFile path = true) : after.isFile path = true := by
  obtain ⟨location, content, resolved, file⟩ := isFile_iff.mp stood
  refine isFile_iff.mpr ⟨location, ?_⟩
  rcases rewrites.nodes location with same | ⟨free, -⟩ | ⟨-, -, text, written⟩
  · exact ⟨content, rewrites.keeps.resolve resolved, same.trans file⟩
  · exact absurd (free.symm.trans file) nofun
  · exact ⟨_, rewrites.keeps.resolve resolved, written⟩

/-- A name with one of the endings of artifacts. -/
def EndsAsArtifact (name : String) : Prop := ∃ stem, ∃ ending ∈ [".vm", ".asm", ".hack"], name = stem ++ ending

/-- No artifact is called like a file with another ending. -/
theorem EndsAsArtifact.ne_append {name ending : String} (apart : ∀ other ∈ [".vm", ".asm", ".hack"],
      ¬other.toList <:+ ending.toList ∧ ¬ending.toList <:+ other.toList)
    (ends : EndsAsArtifact name) (stem : String) : name ≠ stem ++ ending := by
  obtain ⟨_, other, member, rfl⟩ := ends
  exact append_ne_append (apart other member).1 (apart other member).2 _ _

/-- **The names of artifacts** next to sources: those of the code of classes that stand there, and those of whole
programs. -/
def IsArtifactName (tree : FileTree) (directory : Path) (name : String) : Prop :=
  (∃ stem, name = stem ++ ".vm" ∧ tree.isFile (directory.join (stem ++ ".jack")) = true) ∨
    ∃ stem, name = stem ++ ".asm" ∨ name = stem ++ ".hack"

/-- A name with nothing in front of its ending, or with an ending that sources do not have, is not the name of a
source. -/
theorem ofPath?_join_eq_none (directory : Path) {stem ending extension : String} (isName : IsFileName (stem ++ ending))
    (spelled : ending = "." ++ extension) (noDot : '.' ∉ extension.toList)
    (unknown : stem = "" ∨ SourceKind.ofExtension? extension = none) :
    SourceKind.ofPath? (directory.join (stem ++ ending)) = none := by
  unfold SourceKind.ofPath?
  by_cases empty : stem = ""
  · subst empty
    rw [String.empty_append] at isName ⊢
    rw [directory.extension?_join_ending isName spelled noDot]
    rfl
  · rw [(directory.parts_join_append isName spelled noDot empty).2]
    exact unknown.resolve_left empty

namespace IsArtifactName

variable {tree : FileTree} {directory : Path} {name : String}

theorem ends (isArtifact : IsArtifactName tree directory name) : EndsAsArtifact name := by
  rcases isArtifact with ⟨stem, rfl, -⟩ | ⟨stem, rfl | rfl⟩
  · exact ⟨stem, _, by decide, rfl⟩
  · exact ⟨stem, _, by decide, rfl⟩
  · exact ⟨stem, _, by decide, rfl⟩

/-- **Artifacts are no sources**, unless the name of a class is a dot: they have another ending, or they are the code of
a class that stands next to them. -/
theorem no_source (isName : IsFileName name) (isArtifact : IsArtifactName tree directory name) :
    SourceKind.ofPath? (directory.join name) = none ∨
      (name = "..vm" ∧ tree.isFile (directory.join "..jack") = true) ∨
      SourceKind.ofPath? (directory.join name) = some .vm ∧
        tree.isCodeOfClass directory (directory.join name) = true := by
  have code : ".vm" = "." ++ "vm" := rfl
  have asm : ".asm" = "." ++ "asm" := rfl
  have words : ".hack" = "." ++ "hack" := rfl
  rcases isArtifact with ⟨stem, rfl, stands⟩ | ⟨stem, rfl | rfl⟩
  · by_cases empty : stem = ""
    · exact .inl (ofPath?_join_eq_none directory isName code (by decide) (.inl empty))
    · -- The name of the class file is made from the stem, which must not be a dot.
      by_cases dot : stem = "."
      · subst dot
        exact .inr (.inl ⟨rfl, stands⟩)
      · obtain ⟨hasStem, hasExtension⟩ := directory.parts_join_append isName code (by decide) empty
        refine .inr (.inr ⟨?_, ?_⟩)
        · rw [SourceKind.ofPath?, hasExtension]
          rfl
        · have called : (directory.join (stem ++ ".vm")).nameWith? SourceKind.jack.extension =
              some (stem ++ ".jack") := by
            rw [Path.nameWith?, hasStem]
            show (if stem = "." then none else some (stem ++ "." ++ "jack")) = _
            rw [if_neg dot, String.append_assoc]
            rfl
          rw [FileTree.isCodeOfClass, called]
          exact stands
  · exact .inl (ofPath?_join_eq_none directory isName asm (by decide) (.inr (by decide)))
  · exact .inl (ofPath?_join_eq_none directory isName words (by decide) (.inr (by decide)))

end IsArtifactName

section Beside

variable {names : List String} {before after : FileTree} {directory : Path} {location : Location} {name : String}
  (rewrites : Rewrites names before after) (leads : before.Leads directory location)
  (artifacts : ∀ name ∈ names, IsArtifactName before directory name)
  (uncovered : before.isFile (directory.join "..jack") = true → after.isFile (directory.join "..vm") = true →
    after.read (directory.join "..vm") = before.read (directory.join "..vm"))

include rewrites leads

/-- What is written under other names leaves a file in a directory as it is. -/
theorem Rewrites.sameFile (isName : IsFileName name) (apart : name ∉ names) :
    SameFile before after (directory.join name) := by
  have led : after.resolve (directory.join name) = before.resolve (directory.join name) := by
    rw [resolve_join (rewrites.keeps.leads leads) isName, resolve_join leads isName]
  refine rewrites.sameFile_of led fun location resolved other member last => ?_
  rw [getLast?_of_resolve_join isName resolved] at last
  exact apart (Option.some.inj last ▸ member)

include artifacts

/-- Classes stay where they are. -/
theorem Rewrites.sameClass {stem : String} (plain : '/' ∉ stem.toList) :
    SameFile before after (directory.join (stem ++ ".jack")) :=
  rewrites.sameFile leads (isFileName_append plain (by decide) (by decide)) fun member =>
    (artifacts _ member).ends.ne_append (by decide) stem rfl

/-- What is the code of a class is that still. -/
theorem Rewrites.isCodeOfClass_eq (path : Path) :
    after.isCodeOfClass directory path = before.isCodeOfClass directory path := by
  unfold FileTree.isCodeOfClass
  cases called : path.nameWith? SourceKind.jack.extension with
  | none => rfl
  | some name =>
      obtain ⟨stem, hasStem, spelled⟩ := Option.bind_eq_some_iff.mp called
      have whole : name = stem ++ ".jack" := by
        split at spelled
        · exact absurd spelled nofun
        · have same : stem ++ "." ++ "jack" = name := Option.some.inj spelled
          rw [← same, String.append_assoc]
          rfl
      rw [whole]
      exact (rewrites.sameClass leads artifacts (Path.slash_not_mem_stem hasStem)).isFile

include uncovered

/-- **No artifact is picked up**: each name in the directory stands for the same source, or for none, unless the file
is changed that would be the code of the class that is called like a dot. -/
theorem Rewrites.sourceAt?_eq (isName : IsFileName name) :
    after.sourceAt? directory name = before.sourceAt? directory name := by
  have covered := rewrites.isCodeOfClass_eq leads artifacts (directory.join name)
  have sameSource (same : after.isFile (directory.join name) = before.isFile (directory.join name)) :
      after.sourceAt? directory name = before.sourceAt? directory name := by
    rw [FileTree.sourceAt?, FileTree.sourceAt?, same, covered]
  by_cases written : name ∈ names
  · rcases (artifacts name written).no_source isName with none | ⟨rfl, dotted⟩ | ⟨isCode, isCovered⟩
    · rw [FileTree.sourceAt?, FileTree.sourceAt?, none]
    · refine sameSource ?_
      cases stands : after.isFile (directory.join "..vm") with
      | true =>
          rw [← stands]
          refine isFile_congr_of_read ?_ (uncovered dotted stands)
          rw [resolve_join (rewrites.keeps.leads leads) isName, resolve_join leads isName]
      | false =>
          refine (Bool.eq_false_iff.mpr fun stood => ?_).symm
          exact absurd (stands.symm.trans (rewrites.isFile_kept stood)) Bool.false_ne_true
    · rw [FileTree.sourceAt?, FileTree.sourceAt?, isCode, covered, isCovered]
      simp
  · exact sameSource (rewrites.sameFile leads isName written).isFile

/-- **No source is written over.** -/
theorem Rewrites.read_source (isName : IsFileName name) {path : Path}
    (source : before.sourceAt? directory name = some path) : after.read path = before.read path := by
  obtain ⟨rfl, stands⟩ := isFile_of_sourceAt? source
  by_cases written : name ∈ names
  · rcases (artifacts name written).no_source isName with none | ⟨rfl, dotted⟩ | ⟨isCode, isCovered⟩
    · rw [FileTree.sourceAt?, none] at source
      exact absurd source nofun
    · exact uncovered dotted (rewrites.isFile_kept stands)
    · rw [FileTree.sourceAt?, isCode, isCovered] at source
      simp at source
  · exact (rewrites.sameFile leads isName written).read stands

end Beside

/-! ## Loading again -/

/-- **The names of the files** that a program leaves. -/
def Program.Leaves (program : Program) (name : String) : Prop :=
  (∃ unit ∈ program.units, unit.kind = .jack ∧ name = unit.name ++ ".vm") ∨
    name = program.name ++ ".asm" ∨ name = program.name ++ ".hack"

theorem Program.Leaves.ends {program : Program} {name : String} (leaves : program.Leaves name) :
    EndsAsArtifact name := by
  rcases leaves with ⟨unit, -, -, rfl⟩ | rfl | rfl
  · exact ⟨unit.name, _, by decide, rfl⟩
  · exact ⟨program.name, _, by decide, rfl⟩
  · exact ⟨program.name, _, by decide, rfl⟩

/-- A program of one unit leaves no file that is called like its source. -/
theorem Program.Leaves.ne_source {program : Program} {name : String} (leaves : program.Leaves name) {unit : SourceUnit}
    (single : program.units = [unit]) : name ≠ unit.name ++ "." ++ unit.kind.extension := by
  rintro rfl
  cases isKind : unit.kind with
  | jack =>
      rw [isKind, String.append_assoc] at leaves
      exact leaves.ends.ne_append (by decide) unit.name rfl
  | vm =>
      -- A unit of code is not compiled, so its program leaves no other code.
      rw [isKind, String.append_assoc] at leaves
      rcases leaves with ⟨other, inUnits, isClass, -⟩ | same | same
      · obtain rfl := List.mem_singleton.mp (single ▸ inUnits)
        exact absurd (isKind.symm.trans isClass) nofun
      · exact append_ne_append (by decide) (by decide) _ _ same
      · exact append_ne_append (by decide) (by decide) _ _ same

section Loading

variable {names : List String} {before after : FileTree} {input : Path} {loaded : Loaded}

theorem load_eq_ok (was : before.load input = .ok loaded) :
    before.kind input = .ok .directory ∧ before.loadDirectory input = .ok loaded ∨
      before.kind input = .ok .file ∧ before.loadFile input = .ok loaded := by
  obtain ⟨kind, found, was⟩ := both_ok was
  have found := mapError_eq_ok found
  cases kind with
  | directory => exact .inl ⟨found, was⟩
  | file => exact .inr ⟨found, was⟩

theorem loadUnit_eq_ok {path : Path} {unit : SourceUnit} (was : before.loadUnit path = .ok unit) :
    ∃ text, before.read path = .ok text ∧ SourceUnit.ofFile? path text = some unit := by
  obtain ⟨text, read, was⟩ := both_ok was
  split at was
  · rename_i unit' isUnit
    obtain rfl := Except.ok.inj was
    exact ⟨text, mapError_eq_ok read, isUnit⟩
  · exact absurd was nofun

/-- A source that is found is that of a name. -/
theorem exists_sourceAt_of_discover (proper : before.HasFileNames) {paths : List Path}
    (discovered : before.discover input = .ok paths) {path : Path} (member : path ∈ paths) :
    ∃ name, IsFileName name ∧ before.sourceAt? input name = some path := by
  obtain ⟨names, listed, discovered⟩ := both_ok discovered
  obtain rfl := Except.ok.inj discovered
  obtain ⟨name, inNames, source⟩ := List.mem_filterMap.mp member
  have isNames := (names_of_list (mapError_eq_ok listed)).2 proper
  exact ⟨name, isNames name ((List.mergeSort_perm names _).mem_iff.mp inNames), source⟩

/-- The classes of a directory stand there. -/
theorem isFile_of_loaded_class (proper : before.HasFileNames) {paths : List Path} {units : List SourceUnit}
    (discovered : before.discover input = .ok paths) (loadedUnits : paths.mapM before.loadUnit = .ok units)
    {unit : SourceUnit} (inUnits : unit ∈ units) (isClass : unit.kind = .jack) :
    before.isFile (input.join (unit.name ++ ".jack")) = true := by
  obtain ⟨path, inPaths, loadedUnit⟩ := Text.exists_of_mapM loadedUnits inUnits
  obtain ⟨text, -, isUnit⟩ := loadUnit_eq_ok loadedUnit
  obtain ⟨file, isName, source⟩ := exists_sourceAt_of_discover proper discovered inPaths
  obtain ⟨rfl, stands⟩ := isFile_of_sourceAt? source
  have spelled := SourceUnit.name_of_ofFile? isName isUnit
  rw [isClass, String.append_assoc] at spelled
  exact spelled ▸ stands

/-- Where the same is found, programs are called the same. -/
theorem programName_congr (found : after.find input = before.find input) (name? : Path → Option String) :
    after.programName input name? = before.programName input name? := by
  have same : after.canonical input = before.canonical input := by
    rw [FileTree.canonical, FileTree.canonical, found]
  rw [FileTree.programName, FileTree.programName, same]

/-- What stands where it stood is found again. -/
theorem Rewrites.find_eq (rewrites : Rewrites names before after) {location : Location}
    (resolved : before.resolve input = .ok location) (same : after.node? location = before.node? location) :
    after.find input = before.find input := by
  refine find_congr ((rewrites.keeps.resolve resolved).trans resolved.symm) fun location' resolved' => ?_
  obtain rfl := Except.ok.inj (resolved.symm.trans resolved')
  exact same

/-- **A directory is loaded again** as it was. -/
theorem Rewrites.loadDirectory (rewrites : Rewrites names before after) (proper : before.HasFileNames)
    (kind : before.kind input = .ok .directory) (was : before.loadDirectory input = .ok loaded)
    (left : ∀ name ∈ names, loaded.program.Leaves name)
    (uncovered : before.isFile (input.join "..jack") = true → after.isFile (input.join "..vm") = true →
      after.read (input.join "..vm") = before.read (input.join "..vm")) :
    after.kind input = .ok .directory ∧ after.loadDirectory input = .ok loaded ∧
      ∃ location, before.Leads loaded.directory location := by
  obtain ⟨location, node, resolved, stands, isDirectory⟩ := kind_eq_ok kind
  obtain rfl : node = .directory := by
    cases node with
    | directory => rfl
    | file content => exact absurd isDirectory nofun
  have leads := leads_of_resolve resolved stands
  have resolvedAfter := rewrites.keeps.resolve resolved
  have standsAfter := rewrites.keeps.directories location stands
  have found := rewrites.find_eq resolved (standsAfter.trans stands.symm)
  obtain ⟨name, named, was⟩ := both_ok was
  obtain ⟨paths, discovered, was⟩ := both_ok was
  split at was
  · exact absurd was nofun
  · rename_i nonempty
    obtain ⟨units, loadedUnits, was⟩ := both_ok was
    obtain rfl := Except.ok.inj was
    -- The classes of the program stand in this directory, so the code that it leaves is code of theirs.
    have artifacts : ∀ name ∈ names, IsArtifactName before input name := by
      intro name member
      rcases left name member with ⟨unit, inUnits, isClass, rfl⟩ | asm | words
      · exact .inl ⟨unit.name, rfl, isFile_of_loaded_class proper discovered loadedUnits inUnits isClass⟩
      · exact .inr ⟨_, .inl asm⟩
      · exact .inr ⟨_, .inr words⟩
    have discoveredAfter : after.discover input = .ok paths :=
      (discover_congr resolved stands rewrites.keeps proper (rewrites.proper proper) fun name isName =>
        rewrites.sourceAt?_eq leads artifacts uncovered isName).trans discovered
    have units_eq : paths.mapM after.loadUnit = .ok units := by
      refine (mapM_congr fun path member => ?_).trans loadedUnits
      obtain ⟨name, isName, source⟩ := exists_sourceAt_of_discover proper discovered member
      rw [FileTree.loadUnit, FileTree.loadUnit, rewrites.read_source leads artifacts uncovered isName source]
    refine ⟨by rw [kind_of_resolve resolvedAfter, standsAfter]; rfl, ?_, location, leads⟩
    rw [FileTree.loadDirectory, programName_congr found, named, discoveredAfter]
    dsimp only [bind, Except.bind]
    rw [if_neg nonempty, units_eq]
    rfl

/-- The directory of a file to which a path leads. -/
theorem exists_leads_directoryOf {location : Location} {name : List Char} (named : input.name? = some name)
    (resolved : before.resolve input = .ok location) : ∃ outer, before.Leads (directoryOf input) outer := by
  have followed := (resolve_eq_ok_iff.mp resolved).2
  obtain ⟨nonempty, -⟩ := Path.components_of_name named
  obtain ⟨start, body, front, spelled, isParent, begins⟩ := Path.exists_parent_of_name named
  unfold directoryOf
  rw [isParent]
  dsimp only
  split
  · -- only a name in the current directory has nothing in front of it
    rename_i empty
    have noText := congrArg String.toList (String.isEmpty_iff.mp empty)
    rw [String.toList_ofList] at noText
    cases start with
    | root | dot => exact absurd noText (List.cons_ne_nil _ _)
    | here =>
        obtain ⟨c, rest, text⟩ := List.exists_cons_of_ne_nil (Path.isEmpty_eq_false_iff.mp nonempty)
        have body_eq : body = c :: rest := spelled.symm.trans text
        have noSlash : c ≠ '/' := fun same => begins rest (body_eq.trans (congrArg (· :: rest) same))
        rw [follow_eq nonempty, text, base_of_ne_slash rest noSlash, components_of_ne_slash rest noSlash] at followed
        obtain ⟨component, others, cut⟩ := List.exists_cons_of_ne_nil (Path.split_ne_nil (c :: rest))
        rw [cut] at followed
        obtain ⟨_, walked, -⟩ := foldlM_cons_eq_ok followed
        have directory := directory_of_walk walked
        refine ⟨before.current, directory, ?_⟩
        show before.resolve ⟨"."⟩ = .ok before.current
        refine resolve_eq_ok_iff.mpr ⟨rfl, ?_⟩
        show before.walk before.current ['.'] >>= _ = _
        rw [walk_trivial directory rfl]
        rfl
  · rename_i named
    have outside := Bool.eq_false_iff.mpr named
    obtain ⟨more, leadsOn, -⟩ := Path.leadsOn_parent isParent outside
    rw [follow_of_leadsOn outside leadsOn] at followed
    obtain ⟨outer, led, followed⟩ := both_ok followed
    obtain ⟨component, rest, cut⟩ := List.exists_cons_of_ne_nil (Path.split_ne_nil more)
    rw [cut] at followed
    obtain ⟨_, walked, -⟩ := foldlM_cons_eq_ok followed
    have within := admitted_of_begins leadsOn.isPrefix (resolve_eq_ok_iff.mp resolved).1
    exact ⟨outer, leads_of_resolve (resolve_eq_ok_iff.mpr ⟨within, led⟩) (directory_of_walk walked)⟩

/-- **A file is loaded again** as it was. -/
theorem Rewrites.loadFile (rewrites : Rewrites names before after) (kind : before.kind input = .ok .file)
    (was : before.loadFile input = .ok loaded) (left : ∀ name ∈ names, loaded.program.Leaves name) :
    after.kind input = .ok .file ∧ after.loadFile input = .ok loaded ∧
      ∃ location, before.Leads loaded.directory location := by
  obtain ⟨location, node, resolved, stands, isFile⟩ := kind_eq_ok kind
  have resolvedAfter := rewrites.keeps.resolve resolved
  unfold FileTree.loadFile at was
  split at was
  · exact absurd was nofun
  · rename_i isSource
    obtain ⟨name, named, was⟩ := both_ok was
    obtain ⟨unit, loadedUnit, was⟩ := both_ok was
    obtain rfl := Except.ok.inj was
    obtain ⟨text, read, isUnit⟩ := loadUnit_eq_ok loadedUnit
    have called := SourceUnit.path_name_of_ofFile? isUnit
    have last := getLast?_of_resolve called resolved
    rw [String.ofList_toList] at last
    have apart : ∀ name ∈ names, name ≠ unit.name ++ "." ++ unit.kind.extension :=
      fun name member => (left name member).ne_source rfl
    -- Only files with names of artifacts are written, and the source has none of these names.
    have same : after.node? location = before.node? location := by
      rcases rewrites.nodes location with same | ⟨free, -⟩ | ⟨⟨name, member, isLast⟩, -⟩
      · exact same
      · exact absurd (free.symm.trans stands) nofun
      · rw [last] at isLast
        exact absurd (Option.some.inj isLast).symm (apart name member)
    have found := rewrites.find_eq resolved same
    refine ⟨?_, ?_, exists_leads_directoryOf called resolved⟩
    · rw [kind_of_resolve resolvedAfter, same, stands]
      exact congrArg _ isFile
    · rw [FileTree.loadFile, if_neg isSource, programName_congr found, named]
      dsimp only [bind, Except.bind]
      rw [FileTree.loadUnit, read_congr found, ← FileTree.loadUnit, loadedUnit]
      rfl

/-- **A program is loaded again** as it was. -/
theorem Rewrites.load (rewrites : Rewrites names before after) (proper : before.HasFileNames)
    (was : before.load input = .ok loaded) (left : ∀ name ∈ names, loaded.program.Leaves name)
    (uncovered : before.isFile (input.join "..jack") = true → after.isFile (input.join "..vm") = true →
      after.read (input.join "..vm") = before.read (input.join "..vm")) :
    after.load input = .ok loaded ∧ ∃ location, before.Leads loaded.directory location := by
  rcases load_eq_ok was with ⟨kind, was⟩ | ⟨kind, was⟩
  · obtain ⟨kindAfter, again, leads⟩ := rewrites.loadDirectory proper kind was left uncovered
    refine ⟨?_, leads⟩
    rw [FileTree.load, kindAfter]
    exact again
  · obtain ⟨kindAfter, again, leads⟩ := rewrites.loadFile kind was left
    refine ⟨?_, leads⟩
    rw [FileTree.load, kindAfter]
    exact again

/-- **Settings are loaded again** as they were: no artifact is called like those next to the sources. -/
theorem Rewrites.loadSettings (rewrites : Rewrites names before after) {named : Option Path}
    (kept : ∀ path ∈ named, after.read path = before.read path) {location : Location} {directory : Path}
    (leads : before.Leads directory location) {program : Program} (left : ∀ name ∈ names, program.Leaves name) :
    after.loadSettings named directory = before.loadSettings named directory := by
  cases named with
  | some path =>
      show after.readSettings path = before.readSettings path
      rw [FileTree.readSettings, FileTree.readSettings, kept path rfl]
  | none =>
      have isName : IsFileName settingsName := ⟨by decide, by decide, by decide⟩
      have settingsApart : ∀ other ∈ [".vm", ".asm", ".hack"],
          ¬other.toList <:+ settingsName.toList ∧ ¬settingsName.toList <:+ other.toList := by decide
      have same := rewrites.sameFile leads isName fun member =>
        (left _ member).ends.ne_append settingsApart "" (String.empty_append).symm
      unfold FileTree.loadSettings
      dsimp only
      rw [same.isFile]
      split
      · rename_i stands
        rw [FileTree.readSettings, FileTree.readSettings, same.read stands]
      · rfl

/-- **What was loaded is loaded again.** -/
theorem Rewrites.loadAll (rewrites : Rewrites names before after) (proper : before.HasFileNames) {arguments : Arguments}
    {settings : Settings} (was : before.loadAll arguments = .ok (loaded, settings))
    (left : ∀ name ∈ names, loaded.program.Leaves name)
    (kept : ∀ path ∈ arguments.config, after.read path = before.read path)
    (uncovered : before.isFile (arguments.input.join "..jack") = true →
      after.isFile (arguments.input.join "..vm") = true →
        after.read (arguments.input.join "..vm") = before.read (arguments.input.join "..vm")) :
    after.loadAll arguments = .ok (loaded, settings) := by
  obtain ⟨loaded', wasLoaded, was⟩ := both_ok was
  obtain ⟨settings', wasSet, was⟩ := both_ok was
  obtain ⟨rfl, rfl⟩ := Prod.mk.inj (Except.ok.inj was)
  obtain ⟨again, location, leads⟩ := rewrites.load proper (mapError_eq_ok wasLoaded) left uncovered
  rw [FileTree.loadAll, again]
  dsimp only [Except.mapError, bind, Except.bind]
  rw [rewrites.loadSettings kept leads left, wasSet]
  rfl

end Loading

end JackToolchain

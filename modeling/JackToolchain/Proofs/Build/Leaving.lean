import JackToolchain.Proofs.Build.Writing
import JackToolchain.Proofs.Disk.Directories

/-!
# Leaving artifacts again

What a product leaves in a directory, and what becomes of it when it is left there a second time.

## Main Definitions

* `leave` — writing files into a directory that is made first, as a function of the tree.
* `Rewrites` — directories have been made, and files with some names have been written.
* `AgreeOnDirectories` — two trees with the same directories.
* `Restates` — the result of leaving files, as it is stated the second time.

## Main Statements

* `run_writeArtifacts_eq` — the function is what is run.
* `rewrites_leave` — files that are left have their names, and nothing else is changed but for new directories.
* `leaveAll_twice` — what is written into a directory does not depend on the files that are there.
* `leave_again` — what is left a second time is the same, as far as it comes to that.
-/

namespace JackToolchain

open Disk World FileTree

/-! ## As a function -/

/-- Makes a directory and writes files into it. -/
def leave (directory : Path) (files : List (Artifacts × Artifact)) (tree : FileTree) :
    Except BuildError Unit × FileTree :=
  match makeFirst directory.ancestors tree with
  | (.ok (), made) => leaveAll directory files made
  | (.error cause, made) => (.error (.creating directory cause), made)

/-- The files that a product leaves, with what they are. -/
def Product.files (product : Product) (name : String) : List (Artifacts × Artifact) :=
  product.vmArtifacts.map (.vm, ·) ++ (product.programArtifacts name).map (.assembly, ·)

theorem leaveAll_append (directory : Path) (files more : List (Artifacts × Artifact)) (tree : FileTree) :
    leaveAll directory (files ++ more) tree = match leaveAll directory files tree with
      | (.ok (), between) => leaveAll directory more between
      | (.error error, between) => (.error error, between) := by
  induction files generalizing tree with
  | nil => rfl
  | cons file rest ih =>
      obtain ⟨what, artifact⟩ := file
      rw [List.cons_append]
      cases written : tree.write (directory.join artifact.name) artifact.content with
      | ok between =>
          rw [leaveAll_cons_of_ok written, leaveAll_cons_of_ok written]
          exact ih between
      | error cause => rw [leaveAll_cons_of_error written, leaveAll_cons_of_error written]

/-- **What is run** is the function of the tree. -/
theorem run_writeArtifacts_eq (directory : Path) (name : String) (product : Product) (world : World) :
    ∃ paths, run (writeArtifacts World.disk directory name product) world =
      ((leave directory (product.files name) world.tree).1.map fun _ => paths,
        { world with tree := (leave directory (product.files name) world.tree).2 }) := by
  have made := run_makeFirst directory.ancestors world
  have ran := run_attempt_of (BuildError.creating directory) made
  -- Both sides stop at the first of the three steps that fails, with the tree as it is then.
  unfold leave
  cases first : makeFirst directory.ancestors world.tree with
  | mk result grown =>
      rw [first] at ran
      cases result with
      | error cause => exact ⟨[], run_bind_of_error ran⟩
      | ok _ =>
          have units := run_writeAll_eq directory .vm product.vmArtifacts { world with tree := grown }
          rw [writeArtifacts, Disk.makeDirectories, run_bind_of_ok ran, Product.files]
          dsimp only at units ⊢
          rw [leaveAll_append]
          cases leftUnits : leaveAll directory (product.vmArtifacts.map (.vm, ·)) grown with
          | mk result between =>
              rw [leftUnits] at units
              cases result with
              | error error => exact ⟨[], run_bind_of_error units⟩
              | ok _ =>
                  have whole := run_writeAll_eq directory .assembly (product.programArtifacts name)
                    { world with tree := between }
                  rw [run_bind_of_ok units]
                  dsimp only at whole ⊢
                  cases leftWhole : leaveAll directory ((product.programArtifacts name).map (.assembly, ·))
                      between with
                  | mk result after =>
                      rw [leftWhole] at whole
                      cases result with
                      | error error => exact ⟨[], run_bind_of_error whole⟩
                      | ok _ => exact ⟨_, run_bind_of_ok whole⟩

/-! ## Changes -/

/-- **Rewriting.**  Directories have been made where nothing stood, and files with some names have been written; every
other location is as it was. -/
structure Rewrites (names : List String) (before after : FileTree) : Prop where
  keeps : KeepsDirectories before after
  nodes : ∀ location, after.node? location = before.node? location ∨
    before.node? location = none ∧ after.node? location = some .directory ∨
    (∃ name ∈ names, location.getLast? = some name) ∧ before.node? location ≠ some .directory ∧
      ∃ text : String, after.node? location = some (.file text.toUTF8)
  proper : before.HasFileNames → after.HasFileNames

namespace Rewrites

variable {names : List String} {before between after : FileTree}

theorem refl (names : List String) (tree : FileTree) : Rewrites names tree tree :=
  ⟨.refl tree, fun _ => .inl rfl, id⟩

theorem trans (first : Rewrites names before between) (second : Rewrites names between after) :
    Rewrites names before after := by
  refine ⟨first.keeps.trans second.keeps, fun location => ?_, fun proper => second.proper (first.proper proper)⟩
  rcases second.nodes location with same | ⟨free, made⟩ | ⟨named, noDirectory, written⟩
  · rw [same]
    exact first.nodes location
  · rcases first.nodes location with same | ⟨-, directory⟩ | ⟨-, -, text, file⟩
    · exact .inr (.inl ⟨same ▸ free, made⟩)
    · exact absurd (free.symm.trans directory) nofun
    · exact absurd (free.symm.trans file) nofun
  · rcases first.nodes location with same | ⟨-, directory⟩ | ⟨-, noDirectoryToo, -⟩
    · exact .inr (.inr ⟨named, same ▸ noDirectory, written⟩)
    · exact absurd directory noDirectory
    · exact .inr (.inr ⟨named, noDirectoryToo, written⟩)

/-- A directory is made. -/
theorem makeDirectory {path : Path} (made : before.makeDirectory path = .ok after) : Rewrites names before after := by
  obtain ⟨path', -, reached⟩ := both_ok made
  obtain ⟨location, followed, reached⟩ := both_ok reached
  split at reached
  · exact absurd reached nofun
  · rename_i free
    obtain rfl := Except.ok.inj reached
    have grown := Grown.makeDirectory made
    have none : before.node? location = none := Option.not_isSome_iff_eq_none.mp free
    refine ⟨.put (none ▸ nofun) _, fun other => (grown.nodes other).imp_right .inl, fun proper => ?_⟩
    exact proper.put (names_of_follow proper followed) _

/-- Directories are made, up to one that cannot be made. -/
theorem makeFirst (paths : List Path) (tree : FileTree) : Rewrites names tree (FileTree.makeFirst paths tree).2 := by
  induction paths generalizing tree with
  | nil => exact refl names tree
  | cons path outer ih =>
      cases nonempty : path.isEmpty with
      | true =>
          rw [FileTree.makeFirst, nonempty]
          exact refl names tree
      | false =>
          cases first : tree.makeDirectory path with
          | ok made =>
              rw [makeFirst_of_ok nonempty first]
              exact makeDirectory first
          | error cause =>
              -- Only a missing parent is made up for: then what is outside is made, and the directory is tried again.
              by_cases missing : cause = .notFound
              · subst missing
                have outside := ih tree
                cases before : FileTree.makeFirst outer tree with
                | mk result between =>
                    rw [before] at outside
                    cases result with
                    | error error =>
                        rw [makeFirst_of_refused nonempty first before]
                        exact outside
                    | ok _ =>
                        cases second : between.makeDirectory path with
                        | ok whole =>
                            rw [makeFirst_of_before_ok nonempty first before second]
                            exact outside.trans (makeDirectory second)
                        | error error =>
                            rw [makeFirst_of_before_error nonempty first before second]
                            exact outside
              · rw [makeFirst_of_error nonempty first missing]
                exact refl names tree

/-- A file is written. -/
theorem write {directory : Path} {name content : String} (isName : IsFileName name) (member : name ∈ names)
    (written : before.write (directory.join name) content = .ok after) : Rewrites names before after := by
  obtain ⟨location, resolved, noDirectory, rfl⟩ := write_eq_ok written
  refine ⟨.put noDirectory _, fun other => ?_, fun proper => ?_⟩
  · by_cases same : location = other
    · subst same
      refine .inr (.inr ⟨⟨name, member, getLast?_of_resolve_join isName resolved⟩, noDirectory, content, ?_⟩)
      exact node?_put_self (ne_nil_of_node? noDirectory) _
    · exact .inl (node?_put_of_ne same _)
  · exact proper.put (names_of_follow proper (resolve_eq_ok_iff.mp resolved).2) _

end Rewrites

section Files

variable {directory : Path} {files : List (Artifacts × Artifact)} (proper : ∀ file ∈ files, IsFileName file.2.name)
include proper

/-- **Files that are written** have their names… -/
theorem rewrites_leaveAll {names : List String} (known : ∀ file ∈ files, file.2.name ∈ names) (tree : FileTree) :
    Rewrites names tree (leaveAll directory files tree).2 := by
  induction files generalizing tree with
  | nil => exact .refl _ tree
  | cons file rest ih =>
      obtain ⟨what, artifact⟩ := file
      obtain ⟨isName, others⟩ := List.forall_mem_cons.mp proper
      obtain ⟨member, members⟩ := List.forall_mem_cons.mp known
      cases written : tree.write (directory.join artifact.name) artifact.content with
      | ok between =>
          rw [leaveAll_cons_of_ok written]
          exact (Rewrites.write isName member written).trans (ih others members between)
      | error cause =>
          rw [leaveAll_cons_of_error written]
          exact .refl _ tree

/-- …and so do those that are left. -/
theorem rewrites_leave {tree after : FileTree} {result : Except BuildError Unit}
    (left : leave directory files tree = (result, after)) : Rewrites (files.map (·.2.name)) tree after := by
  have grown : Rewrites (files.map (·.2.name)) tree (makeFirst directory.ancestors tree).2 := .makeFirst _ tree
  unfold leave at left
  cases reached : makeFirst directory.ancestors tree with
  | mk outcome made =>
      rw [reached] at grown left
      cases outcome with
      | error cause =>
          obtain ⟨-, rfl⟩ := Prod.mk.inj left
          exact grown
      | ok _ =>
          have written : Rewrites (files.map (·.2.name)) made (leaveAll directory files made).2 :=
            rewrites_leaveAll proper (fun _ => List.mem_map_of_mem) made
          dsimp only at left
          rw [left] at written
          exact grown.trans written

end Files

/-! ## The second time -/

/-- Two trees with the same directories, in which paths begin at the same one. -/
structure AgreeOnDirectories (one two : FileTree) : Prop where
  current : two.current = one.current
  directories : ∀ location, two.node? location = some .directory ↔ one.node? location = some .directory

namespace AgreeOnDirectories

variable {one two three : FileTree}

theorem refl (tree : FileTree) : AgreeOnDirectories tree tree := ⟨rfl, fun _ => Iff.rfl⟩

theorem trans (first : AgreeOnDirectories one two) (second : AgreeOnDirectories two three) :
    AgreeOnDirectories one three :=
  ⟨second.current.trans first.current,
    fun location => (second.directories location).trans (first.directories location)⟩

theorem keeps (agree : AgreeOnDirectories one two) : KeepsDirectories one two :=
  ⟨agree.current, fun location => (agree.directories location).mpr⟩

/-- A file is put where there is no directory. -/
theorem put {location : Location} (noDirectory : one.node? location ≠ some .directory) (content : ByteArray) :
    AgreeOnDirectories one (one.put location (.file content)) := by
  refine ⟨rfl, fun other => ?_⟩
  by_cases same : location = other
  · subst same
    rw [node?_put_self (ne_nil_of_node? noDirectory)]
    exact iff_of_false nofun noDirectory
  · rw [node?_put_of_ne same]

/-- The same file is put into both. -/
theorem put_both (agree : AgreeOnDirectories one two) {location : Location}
    (noDirectory : one.node? location ≠ some .directory) (content : ByteArray) :
    AgreeOnDirectories (one.put location (.file content)) (two.put location (.file content)) := by
  have noDirectoryToo : two.node? location ≠ some .directory := fun directory =>
    noDirectory ((agree.directories location).mp directory)
  refine ⟨agree.current, fun other => ?_⟩
  rw [(put noDirectoryToo content).directories, (put noDirectory content).directories, agree.directories]

end AgreeOnDirectories

/-- Writing files changes no directory. -/
theorem agree_leaveAll (directory : Path) (files : List (Artifacts × Artifact)) (tree : FileTree) :
    AgreeOnDirectories tree (leaveAll directory files tree).2 := by
  induction files generalizing tree with
  | nil => exact .refl tree
  | cons file rest ih =>
      obtain ⟨what, artifact⟩ := file
      cases written : tree.write (directory.join artifact.name) artifact.content with
      | ok between =>
          rw [leaveAll_cons_of_ok written]
          obtain ⟨location, -, noDirectory, rfl⟩ := write_eq_ok written
          exact (AgreeOnDirectories.put noDirectory _).trans (ih _)
      | error cause =>
          rw [leaveAll_cons_of_error written]
          exact .refl tree

/-- **What is written into a directory** does not depend on the files that are there: the result is the same in two
trees with the same directories, and so is what stands at a location, unless it is untouched in both. -/
theorem leaveAll_twice {directory : Path} {location : Location} {files : List (Artifacts × Artifact)}
    (proper : ∀ file ∈ files, IsFileName file.2.name) {one two : FileTree} (agree : AgreeOnDirectories one two)
    (leads : one.Leads directory location) :
    (leaveAll directory files two).1 = (leaveAll directory files one).1 ∧
      ∀ other, (leaveAll directory files two).2.node? other = (leaveAll directory files one).2.node? other ∨
        (leaveAll directory files one).2.node? other = one.node? other ∧
          (leaveAll directory files two).2.node? other = two.node? other := by
  induction files generalizing one two with
  | nil => exact ⟨rfl, fun _ => .inr ⟨rfl, rfl⟩⟩
  | cons file rest ih =>
      obtain ⟨what, artifact⟩ := file
      obtain ⟨isName, others⟩ := List.forall_mem_cons.mp proper
      have here := resolve_join leads isName
      have there := resolve_join (agree.keeps.leads leads) isName
      cases found : entry directory location artifact.name with
      | error cause =>
          rw [found] at here there
          rw [leaveAll_cons_of_error (write_of_refused here), leaveAll_cons_of_error (write_of_refused there)]
          exact ⟨rfl, fun _ => .inr ⟨rfl, rfl⟩⟩
      | ok target =>
          rw [found] at here there
          by_cases stands : one.node? target = some .directory
          · have standsToo := (agree.directories target).mpr stands
            rw [leaveAll_cons_of_error (write_of_directory here stands),
              leaveAll_cons_of_error (write_of_directory there standsToo)]
            exact ⟨rfl, fun _ => .inr ⟨rfl, rfl⟩⟩
          · have standsToo : two.node? target ≠ some .directory := fun directory =>
              stands ((agree.directories target).mp directory)
            rw [leaveAll_cons_of_ok (write_of_free here stands), leaveAll_cons_of_ok (write_of_free there standsToo)]
            have put := AgreeOnDirectories.put stands artifact.content.toUTF8
            obtain ⟨same, nodes⟩ := ih others (agree.put_both stands _) (put.keeps.leads leads)
            refine ⟨same, fun other => (nodes other).elim .inl fun ⟨one', two'⟩ => ?_⟩
            by_cases written : target = other
            · -- both hold what has just been written
              subst written
              rw [node?_put_self (ne_nil_of_node? stands)] at one'
              rw [node?_put_self (ne_nil_of_node? standsToo)] at two'
              exact .inl (two'.trans one'.symm)
            · rw [node?_put_of_ne written] at one' two'
              exact .inr ⟨one', two'⟩

/-- Where no file can be written nothing is changed. -/
theorem leaveAll_of_refused {directory : Path} {files : List (Artifacts × Artifact)} {tree : FileTree}
    (refused : ∀ file ∈ files, ∃ cause, tree.resolve (directory.join file.2.name) = .error cause) :
    (leaveAll directory files tree).2 = tree := by
  cases files with
  | nil => rfl
  | cons file rest =>
      obtain ⟨what, artifact⟩ := file
      obtain ⟨cause, nowhere⟩ := refused _ List.mem_cons_self
      rw [leaveAll_cons_of_error (write_of_refused nowhere)]

/-- **Files that are written again** are those that are there. -/
theorem leaveAll_again {directory : Path} {files : List (Artifacts × Artifact)} {tree after : FileTree}
    {result : Except BuildError Unit} (proper : ∀ file ∈ files, IsFileName file.2.name)
    (stands : directory.isEmpty = true ∨ tree.isDirectory directory = true)
    (left : leaveAll directory files tree = (result, after)) :
    ∃ again, leaveAll directory files after = (result, again) ∧ again.current = after.current ∧
      ∀ location, again.node? location = after.node? location := by
  have agree := agree_leaveAll directory files tree
  rw [left] at agree
  have led : (∃ location, tree.Leads directory location) ∨
      directory.isEmpty = true ∧ tree.node? tree.current ≠ some .directory := by
    cases empty : directory.isEmpty with
    | true =>
        by_cases here : tree.node? tree.current = some .directory
        · exact .inl ⟨tree.current, here, by rw [if_pos empty]⟩
        · exact .inr ⟨rfl, here⟩
    | false =>
        rw [empty] at stands
        obtain ⟨location, resolved, found⟩ := isDirectory_iff.mp (stands.resolve_left Bool.false_ne_true)
        exact .inl ⟨location, found, by rw [empty, if_neg Bool.false_ne_true]; exact resolved⟩
  rcases led with ⟨location, leads⟩ | ⟨empty, nowhere⟩
  · obtain ⟨same, nodes⟩ := leaveAll_twice proper agree leads
    rw [left] at same nodes
    have again : leaveAll directory files after = (result, (leaveAll directory files after).2) := Prod.ext same rfl
    refine ⟨_, again, (agree_leaveAll directory files after).current, fun other => ?_⟩
    exact (nodes other).elim id And.right
  · have unchanged : (leaveAll directory files tree).2 = tree := leaveAll_of_refused fun file member =>
      resolve_join_of_nowhere empty nowhere (proper file member)
    rw [left] at unchanged
    obtain rfl : after = tree := unchanged
    exact ⟨_, left, rfl, fun _ => rfl⟩

/-- **The result of the second time**: the same, or that a directory cannot be made because what existed already in
its place is not one. -/
def Restates (first second : Except BuildError Unit) : Prop :=
  second = first ∨ ∃ path, first = .error (.creating path .alreadyExists) ∧
    second = .error (.creating path .notADirectory)

/-- A path is the first of the paths that are made for it. -/
theorem Disk.Path.exists_ancestors (path : Path) : ∃ outer, path.ancestors = path :: outer := by
  unfold Path.ancestors
  cases path.text.length with
  | zero => exact ⟨[], rfl⟩
  | succ budget =>
      unfold Path.ancestors.go
      split
      · exact ⟨_, rfl⟩
      · exact ⟨[], rfl⟩

/-- **What is left a second time** is there already. -/
theorem leave_again {directory : Path} {files : List (Artifacts × Artifact)} {tree after : FileTree}
    {result : Except BuildError Unit} (proper : ∀ file ∈ files, IsFileName file.2.name)
    (left : leave directory files tree = (result, after)) :
    ∃ second again, leave directory files after = (second, again) ∧ Restates result second ∧
      again.current = after.current ∧ ∀ location, again.node? location = after.node? location := by
  obtain ⟨outer, ancestors⟩ := directory.exists_ancestors
  have settled : IsSettled directory directory.ancestors (makeFirst directory.ancestors tree) :=
    isSettled_ancestors directory.text.length directory tree
  unfold leave at left
  cases first : makeFirst directory.ancestors tree with
  | mk reached made =>
      rw [first] at left settled
      obtain ⟨repeats, stands⟩ := settled
      cases reached with
      | error cause =>
          obtain ⟨rfl, rfl⟩ := Prod.mk.inj left
          obtain ⟨cause', repeated, restates⟩ := repeats
          refine ⟨.error (.creating directory cause'), made, ?_, ?_, rfl, fun _ => rfl⟩
          · rw [leave, repeated]
          · rcases restates with rfl | ⟨rfl, rfl⟩
            · exact .inl rfl
            · exact .inr ⟨directory, rfl, rfl⟩
      | ok _ =>
          obtain ⟨again, repeated, current, nodes⟩ := leaveAll_again proper stands left
          refine ⟨result, again, ?_, .inl rfl, current, nodes⟩
          -- Writing files takes no directory away, so none has to be made the second time.
          have keeps := (agree_leaveAll directory files made).keeps
          rw [show (leaveAll directory files made).2 = after from congrArg Prod.snd left] at keeps
          have standsStill : makeFirst (directory :: outer) after = (.ok (), after) := by
            rcases stands with empty | stands
            · rw [FileTree.makeFirst, empty]
              rfl
            · obtain ⟨location, resolved, found⟩ := isDirectory_iff.mp stands
              refine makeFirst_of_isDirectory (isDirectory_iff.mpr ?_) outer
              exact ⟨location, keeps.resolve resolved, keeps.directories location found⟩
          rw [leave, ancestors, standsStill]
          exact repeated

end JackToolchain

import JackToolchain.Proofs.Disk.Contents
import JackToolchain.Proofs.Disk.World

/-!
# Making directories again

What it means to make a directory, together with those in front of it, a second time.

## Main Definitions

* `FileTree.makeFirst` — making directories, as a function of the tree.
* `FileTree.Bars` — nothing can stand behind a path.
* `FileTree.Restates` — the cause of a failure, as it is stated the second time.
* `FileTree.IsSettled` — what is known of a directory that was made, or could not be made.

## Main Statements

* `World.run_makeFirst` — the function is what is run.
* `FileTree.Bars.makeDirectory` — what cannot stand behind a path cannot be made there.
* `FileTree.isSettled_cons` — making one directory repeats itself, if making those in front of it does.
* `FileTree.isSettled_ancestors` — so making a directory with all those in front of it repeats itself.

## Design Notes

A failure leaves the directories that were made before it.  The second time the path gets further at once, so it may
fail at another place: where a file stood in the place of a directory that was to be made, the second failure is that
the file is not a directory.
-/

namespace JackToolchain.Disk

namespace FileTree

/-! ## As functions -/

/-- Whether a directory stands at a path. -/
def isDirectory (tree : FileTree) (path : Path) : Bool :=
  match tree.kind path with
  | .ok .directory => true
  | _ => false

/-- A failure to make a directory does not count where one stands. -/
def unlessDirectory (tree : FileTree) (path : Path) (error : DiskError) : Except DiskError Unit :=
  if tree.isDirectory path then .ok () else .error error

/-- Makes the first of some directories, each of which stands in the next. -/
def makeFirst : List Path → FileTree → Except DiskError Unit × FileTree
  | [], tree => (.error (.other "failed to create whole tree"), tree)
  | path :: outer, tree =>
    if path.isEmpty then (.ok (), tree)
    else match tree.makeDirectory path with
      | .ok made => (.ok (), made)
      | .error .notFound =>
        match makeFirst outer tree with
        | (.error error, made) => (.error error, made)
        | (.ok (), made) =>
          match made.makeDirectory path with
          | .ok whole => (.ok (), whole)
          | .error error => (made.unlessDirectory path error, made)
      | .error error => (tree.unlessDirectory path error, tree)

section MakeFirst

variable {tree between : FileTree} {path : Path} {outer : List Path}

theorem unlessDirectory_of_isDirectory (stands : tree.isDirectory path = true) (error : DiskError) :
    tree.unlessDirectory path error = .ok () :=
  if_pos stands

theorem unlessDirectory_of_not (absent : tree.isDirectory path = false) (error : DiskError) :
    tree.unlessDirectory path error = .error error :=
  if_neg (Bool.eq_false_iff.mp absent)

/-- A directory that can be made at once. -/
theorem makeFirst_of_ok {made : FileTree} (nonempty : path.isEmpty = false)
    (first : tree.makeDirectory path = .ok made) : makeFirst (path :: outer) tree = (.ok (), made) := by
  rw [makeFirst, nonempty, first]
  rfl

/-- If something is missing in front of the directory… -/
theorem makeFirst_of_missing (nonempty : path.isEmpty = false)
    (missing : tree.makeDirectory path = .error .notFound) : makeFirst (path :: outer) tree =
      match makeFirst outer tree with
      | (.error error, made) => (.error error, made)
      | (.ok (), made) =>
        match made.makeDirectory path with
        | .ok whole => (.ok (), whole)
        | .error error => (made.unlessDirectory path error, made) := by
  rw [makeFirst, nonempty, missing]
  rfl

/-- …which cannot be made… -/
theorem makeFirst_of_refused {error : DiskError} (nonempty : path.isEmpty = false)
    (missing : tree.makeDirectory path = .error .notFound)
    (refused : makeFirst outer tree = (.error error, between)) :
    makeFirst (path :: outer) tree = (.error error, between) := by
  rw [makeFirst_of_missing nonempty missing, refused]

/-- …or which is made… -/
theorem makeFirst_of_before_ok {whole : FileTree} (nonempty : path.isEmpty = false)
    (missing : tree.makeDirectory path = .error .notFound) (before : makeFirst outer tree = (.ok (), between))
    (second : between.makeDirectory path = .ok whole) : makeFirst (path :: outer) tree = (.ok (), whole) := by
  rw [makeFirst_of_missing nonempty missing, before]
  dsimp only
  rw [second]

/-- …so that it fails for another reason. -/
theorem makeFirst_of_before_error {error : DiskError} (nonempty : path.isEmpty = false)
    (missing : tree.makeDirectory path = .error .notFound) (before : makeFirst outer tree = (.ok (), between))
    (second : between.makeDirectory path = .error error) :
    makeFirst (path :: outer) tree = (between.unlessDirectory path error, between) := by
  rw [makeFirst_of_missing nonempty missing, before]
  dsimp only
  rw [second]

/-- Any other failure counts unless there is a directory. -/
theorem makeFirst_of_error {error : DiskError} (nonempty : path.isEmpty = false)
    (failed : tree.makeDirectory path = .error error) (other : error ≠ .notFound) :
    makeFirst (path :: outer) tree = (tree.unlessDirectory path error, tree) := by
  rw [makeFirst, nonempty, failed]
  cases error with
  | notFound => exact absurd rfl other
  | _ => rfl

end MakeFirst

end FileTree

namespace World

/-- Making a directory, as a function of the tree. -/
theorem run_makeDirectory (path : Path) (world : World) :
    (World.disk.makeDirectory path).run world = match world.tree.makeDirectory path with
      | .ok tree => (.ok (), { world with tree })
      | .error error => (.error error, world) :=
  run_change (·.makeDirectory path) world

theorem run_unlessDirectory (path : Path) (error : DiskError) (world : World) :
    (World.disk.unlessDirectory path error).run world = (world.tree.unlessDirectory path error, world) := by
  have looked : (World.disk.isDirectory path).run world = (world.tree.isDirectory path, world) := by
    have kind : (World.disk.kind path).run world = (world.tree.kind path, world) := rfl
    rw [Disk.isDirectory, run_bind_of kind]
    unfold FileTree.isDirectory
    cases world.tree.kind path with
    | error error => rfl
    | ok kind => cases kind <;> rfl
  rw [Disk.unlessDirectory, run_bind_of looked]
  unfold FileTree.unlessDirectory
  cases world.tree.isDirectory path <;> rfl

/-- **What is run** is the function of the tree. -/
theorem run_makeFirst (paths : List Path) (world : World) :
    (World.disk.makeFirst paths).run world =
      ((FileTree.makeFirst paths world.tree).1,
        { world with tree := (FileTree.makeFirst paths world.tree).2 }) := by
  induction paths generalizing world with
  | nil => rfl
  | cons path outer ih =>
      cases nonempty : path.isEmpty with
      | true =>
          unfold Disk.makeFirst FileTree.makeFirst
          rw [nonempty]
          rfl
      | false =>
          have first := run_makeDirectory path world
          rw [Disk.makeFirst, nonempty, if_neg Bool.false_ne_true]
          cases made : world.tree.makeDirectory path with
          | ok tree =>
              rw [made] at first
              rw [run_bind_of first, FileTree.makeFirst_of_ok nonempty made]
              rfl
          | error cause =>
              rw [made] at first
              rw [run_bind_of first]
              by_cases missing : cause = .notFound
              · -- the directories in front are made, and then it is tried once more
                subst missing
                refine (run_bind_of (ih world)).trans ?_
                cases before : FileTree.makeFirst outer world.tree with
                | mk result between =>
                    cases result with
                    | error error => rw [FileTree.makeFirst_of_refused nonempty made before]; rfl
                    | ok _ =>
                        have second := run_makeDirectory path { world with tree := between }
                        dsimp only at second ⊢
                        cases again : between.makeDirectory path with
                        | ok tree =>
                            rw [again] at second
                            rw [run_bind_of second, FileTree.makeFirst_of_before_ok nonempty made before again]
                            rfl
                        | error error =>
                            rw [again] at second
                            rw [run_bind_of second, FileTree.makeFirst_of_before_error nonempty made before again]
                            exact run_unlessDirectory path error _
              · rw [FileTree.makeFirst_of_error nonempty made missing]
                cases cause with
                | notFound => exact absurd rfl missing
                | _ => exact run_unlessDirectory path _ world

end World

namespace FileTree

variable {tree : FileTree} {path outer : Path} {cause error : DiskError}

/-- Making a directory, at a path within the limits. -/
theorem makeDirectory_eq (within : admitted path = .ok path) :
    tree.makeDirectory path = tree.follow (dropSlashes path) >>= fun location =>
      if (tree.node? location).isSome then .error .alreadyExists else .ok (tree.put location .directory) := by
  rw [makeDirectory, within]
  dsimp only [bind, Except.bind]
  cases tree.follow (dropSlashes path) with
  | error cause => rfl
  | ok location =>
      dsimp only
      cases tree.node? location <;> rfl

/-! ## Barred paths -/

/-- **Barred paths**: whatever is looked up behind the path, it leads nowhere for the same cause. -/
def Bars (tree : FileTree) (path : Path) (cause : DiskError) : Prop :=
  ∀ component, (tree.follow path >>= (tree.walk · component)) = .error cause

/-- Where a path leads nowhere, nothing is behind it… -/
theorem bars_of_follow (failed : tree.follow path = .error cause) : tree.Bars path cause := by
  intro component
  rw [failed]
  rfl

/-- …nor is there where it leads to a file. -/
theorem bars_of_file {location : Location} {content : ByteArray} (reached : tree.follow path = .ok location)
    (file : tree.node? location = some (.file content)) : tree.Bars path .notADirectory := by
  intro component
  show tree.follow path >>= _ = _
  rw [reached]
  show tree.walk location component = _
  rw [walk, file]

/-- What is behind a barred path leads nowhere. -/
theorem Bars.follow {more : List Char} (bars : tree.Bars outer cause) (nonempty : outer.isEmpty = false)
    (leadsOn : outer.LeadsOn path more) : tree.follow path = .error cause := by
  obtain ⟨component, rest, cut⟩ := List.exists_cons_of_ne_nil (Path.split_ne_nil more)
  rw [follow_of_leadsOn nonempty leadsOn, cut]
  calc (tree.follow outer >>= (component :: rest).foldlM tree.walk)
    _ = (tree.follow outer >>= (tree.walk · component)) >>= rest.foldlM tree.walk := (bind_assoc ..).symm
    _ = .error cause := by rw [bars component]; rfl

/-- **What cannot stand behind a path** cannot be made there. -/
theorem Bars.makeDirectory (bars : tree.Bars outer cause) (nonempty : outer.isEmpty = false)
    (parent : path.parent? = some outer) (within : admitted path = .ok path) :
    tree.makeDirectory path = .error cause := by
  obtain ⟨more, leadsOn, c, inside, noSlash⟩ := Path.leadsOn_parent parent nonempty
  obtain ⟨more', leadsOnToo⟩ := leadsOn.dropSlashes inside noSlash
  rw [makeDirectory_eq within, bars.follow nonempty leadsOnToo]
  rfl

/-! ## Directories -/

theorem isDirectory_iff : tree.isDirectory path = true ↔
    ∃ location, tree.resolve path = .ok location ∧ tree.node? location = some .directory := by
  constructor
  · intro stands
    unfold isDirectory at stands
    split at stands
    · rename_i found
      obtain ⟨location, node, resolved, stands, isDirectory⟩ := kind_eq_ok found
      cases node with
      | directory => exact ⟨location, resolved, stands⟩
      | file content => exact absurd isDirectory nofun
    · exact absurd stands Bool.false_ne_true
  · rintro ⟨location, resolved, stands⟩
    rw [isDirectory, kind_of_resolve resolved, stands]
    rfl

/-- Slashes at the end of a path are one trivial component. -/
theorem follow_dropSlashes (tree : FileTree) (path : Path) :
    tree.follow path = tree.follow (dropSlashes path) ∨
      tree.follow path = tree.follow (dropSlashes path) >>= (tree.walk · []) := by
  rcases path.leadsOn_dropSlashes with same | ⟨nonempty, count, leadsOn⟩
  · exact .inl (by rw [same])
  · right
    rw [follow_of_leadsOn nonempty leadsOn, Path.split_slashes]
    refine bind_congr fun location => ?_
    by_cases directory : tree.node? location = some .directory
    · rw [walk_trivial directory rfl]
      refine foldlM_trivial directory fun component member => ?_
      rw [(List.mem_replicate.mp member).2]
      rfl
    · obtain ⟨cause, -, -, failed⟩ := walk_of_not_directory directory
      rw [List.replicate_succ, List.foldlM_cons, failed]
      rfl

/-- **What is made** is a directory at its path… -/
theorem isDirectory_of_made {made : FileTree} (done : tree.makeDirectory path = .ok made) :
    made.isDirectory path = true := by
  have within : admitted path = .ok path := by
    obtain ⟨path', within, -⟩ := both_ok done
    rwa [admitted_eq_ok within] at within
  rw [makeDirectory_eq within] at done
  obtain ⟨location, reached, put⟩ := both_ok done
  split at put
  · exact absurd put nofun
  · rename_i free
    obtain rfl := Except.ok.inj put
    have none : tree.node? location = none := Option.not_isSome_iff_eq_none.mp free
    have noDirectory : tree.node? location ≠ some .directory := none ▸ nofun
    have directory : (tree.put location .directory).node? location = some .directory :=
      node?_put_self (ne_nil_of_node? noDirectory) _
    have keeps := KeepsDirectories.put noDirectory .directory
    have kept := (keeps.follow reached)
    refine isDirectory_iff.mpr ⟨location, resolve_eq_ok_iff.mpr ⟨within, ?_⟩, directory⟩
    rcases (tree.put location .directory).follow_dropSlashes path with same | same
    · rw [same, kept]
    · rw [same, kept]
      exact walk_trivial directory rfl

/-- …which cannot be made again. -/
theorem makeDirectory_of_isDirectory (stands : tree.isDirectory path = true) :
    tree.makeDirectory path = .error .alreadyExists := by
  obtain ⟨location, resolved, directory⟩ := isDirectory_iff.mp stands
  obtain ⟨within, followed⟩ := resolve_eq_ok_iff.mp resolved
  obtain ⟨reached, found, node⟩ : ∃ reached, tree.follow (dropSlashes path) = .ok reached ∧
      tree.node? reached = some .directory := by
    rcases tree.follow_dropSlashes path with same | same
    · exact ⟨location, same ▸ followed, directory⟩
    · obtain ⟨reached, found, walked⟩ := both_ok (same ▸ followed)
      exact ⟨reached, found, directory_of_walk walked⟩
  rw [makeDirectory_eq within, found]
  show (if (tree.node? reached).isSome then _ else _ : Except DiskError FileTree) = _
  rw [node]
  rfl

/-! ## Failures -/

/-- **The cause of a failure the second time**: the same, or that what existed already is not a directory. -/
def Restates (first second : DiskError) : Prop :=
  second = first ∨ first = .alreadyExists ∧ second = .notADirectory

/-- A directory that cannot be made bars its path. -/
theorem exists_bars (failed : tree.makeDirectory path = .error error) (within : admitted path = .ok path)
    (noDirectory : tree.isDirectory path = false) : ∃ cause, tree.Bars path cause ∧ Restates error cause := by
  rw [makeDirectory_eq within] at failed
  cases reached : tree.follow (dropSlashes path) with
  | error cause =>
      rw [reached] at failed
      obtain rfl := Except.error.inj failed
      refine ⟨cause, bars_of_follow ?_, .inl rfl⟩
      rcases tree.follow_dropSlashes path with same | same
      · rw [same, reached]
      · rw [same, reached]
        rfl
  | ok location =>
      rw [reached] at failed
      change (if (tree.node? location).isSome then _ else _ : Except DiskError FileTree) = _ at failed
      split at failed
      · rename_i stands
        obtain rfl := Except.error.inj failed
        obtain ⟨node, found⟩ := Option.isSome_iff_exists.mp stands
        cases node with
        | directory =>
            have resolved : tree.resolve path = .ok location := by
              refine resolve_eq_ok_iff.mpr ⟨within, ?_⟩
              rcases tree.follow_dropSlashes path with same | same
              · rw [same, reached]
              · rw [same, reached]
                exact walk_trivial found rfl
            exact absurd (isDirectory_iff.mpr ⟨location, resolved, found⟩) (Bool.eq_false_iff.mp noDirectory)
        | file content =>
            -- A file in the place of the directory is what is restated: it exists, and it is no directory.
            refine ⟨.notADirectory, ?_, .inr ⟨rfl, rfl⟩⟩
            rcases tree.follow_dropSlashes path with same | same
            · exact bars_of_file (same.trans reached) found
            · refine bars_of_follow ?_
              rw [same, reached]
              show tree.walk location [] = _
              rw [walk, found]
      · cases failed

/-! ## The second time -/

/-- **What the second time brings**, in a tree as it was left the first time: success where there was success, and
otherwise a failure that restates the first one and changes nothing. -/
def RepeatsIn (paths : List Path) : Except DiskError Unit × FileTree → Prop
  | (.ok (), made) => makeFirst paths made = (.ok (), made)
  | (.error error, made) => ∃ again, makeFirst paths made = (.error again, made) ∧ Restates error again

/-- **What is known of a directory** that was made together with those in front of it: making them repeats itself;
there is the directory, or the path is barred for a cause that the failure states. -/
def IsSettled (path : Path) (paths : List Path) (outcome : Except DiskError Unit × FileTree) : Prop :=
  RepeatsIn paths outcome ∧ match outcome with
    | (.ok (), made) => path.isEmpty = true ∨ made.isDirectory path = true
    | (.error error, made) => path.isEmpty = false ∧ (admitted path = .ok path →
      ∃ cause, made.Bars path cause ∧ (cause = .notFound ∨ Restates error cause))

/-- A path at which nothing can be made for lack of directories in front of it, once these could not be made. -/
def StaysBarred (tree : FileTree) (path : Path) (outer : List Path) : Prop :=
  ∀ error made, makeFirst outer tree = (.error error, made) → tree.makeDirectory path = .error .notFound →
    ∃ cause, made.makeDirectory path = .error cause ∧ made.follow path = .error cause ∧
      (cause = .notFound ∨ Restates error cause)

/-- Where a directory stands, it need not be made. -/
theorem makeFirst_of_isDirectory (stands : tree.isDirectory path = true) (outer : List Path) :
    makeFirst (path :: outer) tree = (.ok (), tree) := by
  cases nonempty : path.isEmpty with
  | true => rw [makeFirst, nonempty]; rfl
  | false =>
      rw [makeFirst_of_error nonempty (makeDirectory_of_isDirectory stands) nofun,
        unlessDirectory_of_isDirectory stands]

/-- Where a path leads nowhere, no directory stands. -/
theorem not_isDirectory_of_follow (failed : tree.follow path = .error cause) : tree.isDirectory path = false := by
  rw [← Bool.not_eq_true, isDirectory_iff]
  rintro ⟨location, resolved, -⟩
  exact absurd (failed.symm.trans (resolve_eq_ok_iff.mp resolved).2) nofun

/-- What can be looked up to be made is within the limits. -/
theorem admitted_of_missing (missing : tree.makeDirectory path = .error .notFound) : admitted path = .ok path := by
  cases within : admitted path with
  | ok path' => rw [admitted_eq_ok within]
  | error cause =>
      unfold admitted at within
      rw [makeDirectory, admitted] at missing
      split at within
      · rename_i null
        rw [if_pos null] at missing
        exact absurd missing nofun
      · rename_i null
        split at within
        · rename_i long
          rw [if_neg null, if_pos long] at missing
          exact absurd missing nofun
        · exact absurd within nofun

section Settling

variable {outer : List Path} {between : FileTree}

/-- The directories in front of it cannot be made, and the path is barred by where that failed. -/
theorem isSettled_of_refused (nonempty : path.isEmpty = false) (repeats : RepeatsIn outer (.error error, between))
    (second : between.makeDirectory path = .error cause) (nowhere : between.follow path = .error cause)
    (left : cause = .notFound ∨ Restates error cause) : IsSettled path (path :: outer) (.error error, between) := by
  obtain ⟨again, repeated, restates⟩ := repeats
  refine ⟨?_, nonempty, fun _ => ⟨cause, bars_of_follow nowhere, left⟩⟩
  by_cases missing : cause = .notFound
  · subst missing
    exact ⟨again, makeFirst_of_refused nonempty second repeated, restates⟩
  · refine ⟨cause, ?_, left.resolve_left missing⟩
    rw [makeFirst_of_error nonempty second missing, unlessDirectory_of_not (not_isDirectory_of_follow nowhere)]

/-- The directories in front of it are there, and it fails for another reason. -/
theorem isSettled_of_before_error (nonempty : path.isEmpty = false) (within : admitted path = .ok path)
    (repeated : makeFirst outer between = (.ok (), between)) (second : between.makeDirectory path = .error error) :
    IsSettled path (path :: outer) (between.unlessDirectory path error, between) := by
  cases stands : between.isDirectory path with
  | true =>
      rw [unlessDirectory_of_isDirectory stands]
      exact ⟨makeFirst_of_isDirectory stands outer, .inr stands⟩
  | false =>
      obtain ⟨cause, bars, restates⟩ := exists_bars second within stands
      rw [unlessDirectory_of_not stands]
      refine ⟨⟨error, ?_, .inl rfl⟩, nonempty, fun _ => ⟨cause, bars, .inr restates⟩⟩
      by_cases missing : error = .notFound
      · subst missing
        rw [makeFirst_of_before_error nonempty second repeated second, unlessDirectory_of_not stands]
      · rw [makeFirst_of_error nonempty second missing, unlessDirectory_of_not stands]

/-- It fails at once. -/
theorem isSettled_of_error (nonempty : path.isEmpty = false) (failed : tree.makeDirectory path = .error error)
    (other : error ≠ .notFound) : IsSettled path (path :: outer) (tree.unlessDirectory path error, tree) := by
  cases stands : tree.isDirectory path with
  | true =>
      rw [unlessDirectory_of_isDirectory stands]
      exact ⟨makeFirst_of_isDirectory stands outer, .inr stands⟩
  | false =>
      rw [unlessDirectory_of_not stands]
      refine ⟨⟨error, ?_, .inl rfl⟩, nonempty, fun within => ?_⟩
      · rw [makeFirst_of_error nonempty failed other, unlessDirectory_of_not stands]
      · obtain ⟨cause, bars, restates⟩ := exists_bars failed within stands
        exact ⟨cause, bars, .inr restates⟩

/-- **One directory more.**  If making those in front of a directory repeats itself, so does making it. -/
theorem isSettled_cons (repeats : RepeatsIn outer (makeFirst outer tree)) (barred : tree.StaysBarred path outer) :
    IsSettled path (path :: outer) (makeFirst (path :: outer) tree) := by
  cases nonempty : path.isEmpty with
  | true =>
      have stands (tree : FileTree) : makeFirst (path :: outer) tree = (.ok (), tree) := by
        rw [makeFirst, nonempty]
        rfl
      rw [stands]
      exact ⟨stands tree, .inl nonempty⟩
  | false =>
      cases first : tree.makeDirectory path with
      | ok made =>
          have stands := isDirectory_of_made first
          rw [makeFirst_of_ok nonempty first]
          exact ⟨makeFirst_of_isDirectory stands outer, .inr stands⟩
      | error cause =>
          by_cases missing : cause = .notFound
          · subst missing
            cases before : makeFirst outer tree with
            | mk result between =>
                rw [before] at repeats
                cases result with
                | error error =>
                    -- Directories made before the failure do not clear the way: the path is barred still.
                    obtain ⟨cause, second, nowhere, left⟩ := barred error between before first
                    rw [makeFirst_of_refused nonempty first before]
                    exact isSettled_of_refused nonempty repeats second nowhere left
                | ok _ =>
                    cases second : between.makeDirectory path with
                    | ok whole =>
                        have stands := isDirectory_of_made second
                        rw [makeFirst_of_before_ok nonempty first before second]
                        exact ⟨makeFirst_of_isDirectory stands outer, .inr stands⟩
                    | error error =>
                        rw [makeFirst_of_before_error nonempty first before second]
                        exact isSettled_of_before_error nonempty (admitted_of_missing first) repeats second
          · rw [makeFirst_of_error nonempty first missing]
            exact isSettled_of_error nonempty first missing

end Settling

/-- With nothing in front of it to be tried, a path that leads nowhere still does. -/
theorem staysBarred_nil (tree : FileTree) (path : Path) : tree.StaysBarred path [] := by
  rintro error made ⟨⟩ missing
  have within := admitted_of_missing missing
  refine ⟨_, missing, ?_, .inl rfl⟩
  rw [makeDirectory_eq within] at missing
  cases reached : tree.follow (dropSlashes path) with
  | ok location =>
      rw [reached] at missing
      change (if (tree.node? location).isSome then _ else _ : Except DiskError FileTree) = _ at missing
      split at missing
      · exact absurd missing nofun
      · exact absurd missing nofun
  | error cause =>
      rw [reached] at missing
      obtain rfl := Except.error.inj missing
      rcases tree.follow_dropSlashes path with same | same
      · rw [same, reached]
      · rw [same, reached]
        rfl

/-- **A directory with those in front of it**, as they are tried one after the other. -/
theorem isSettled_ancestors (budget : Nat) (path : Path) (tree : FileTree) :
    IsSettled path (Path.ancestors.go budget path) (makeFirst (Path.ancestors.go budget path) tree) := by
  have none : RepeatsIn [] (makeFirst [] tree) := ⟨_, rfl, .inl rfl⟩
  induction budget generalizing path with
  | zero => exact isSettled_cons none (staysBarred_nil tree path)
  | succ budget ih =>
      unfold Path.ancestors.go
      split
      · rename_i parent isParent
        obtain ⟨repeats, left⟩ := ih parent
        refine isSettled_cons repeats fun error made failed missing => ?_
        rw [failed] at left
        obtain ⟨nonempty, isLeft⟩ := left
        have within := admitted_of_missing missing
        obtain ⟨more, leadsOn, -⟩ := Path.leadsOn_parent isParent nonempty
        obtain ⟨cause, bars, known⟩ := isLeft (admitted_of_begins leadsOn.isPrefix within)
        exact ⟨cause, bars.makeDirectory nonempty isParent within, bars.follow nonempty leadsOn, known⟩
      · exact isSettled_cons none (staysBarred_nil tree path)

end FileTree

end JackToolchain.Disk

import JackToolchain.Proofs.Disk.FileTree
import Mathlib.Data.List.TakeWhile

/-!
# Looking paths up

Where the paths lead that are made from other ones: a path with more behind it, a name inside a directory, the path
in front of the last component, and a path without the slashes at its end.

## Main Definitions

* `Path.LeadsOn` — a path is another one with more behind it.
* `FileTree.Leads` — a path leads to a directory into which files can be put.
* `FileTree.entry` — the location of a name in a directory.

## Main Statements

* `FileTree.follow_of_leadsOn` — a path that leads on is looked up from where the other one leads.
* `FileTree.resolve_join` — a name in a directory is looked up in that directory, whatever stands in it.
* `Path.leadsOn_parent`, `Path.leadsOn_dropSlashes` — a path leads on from the path in front of it, and from itself
  without slashes.
* `FileTree.getLast?_of_resolve` — the name of a path is the last one of its location.
-/

namespace JackToolchain.Disk

open Text

/-! ## Paths -/

namespace Path

/-- **Leading on.**  The path is another one with more behind it; a slash at the end of the other one need not be
repeated. -/
def LeadsOn (outer path : Path) (more : List Char) : Prop :=
  path.text.toList = outer.text.toList ++ '/' :: more ∨
    outer.text.toList.getLast? = some '/' ∧ path.text.toList = outer.text.toList ++ more

variable {path outer : Path} {more : List Char}

theorem isEmpty_eq_false_iff : path.isEmpty = false ↔ path.text.toList ≠ [] := by
  unfold isEmpty
  rw [← Bool.not_eq_true, String.isEmpty_iff, ← String.toList_inj]
  rfl

/-- A path that leads on begins like the other one. -/
theorem LeadsOn.isPrefix (leadsOn : outer.LeadsOn path more) : outer.text.toList <+: path.text.toList := by
  rcases leadsOn with spelled | ⟨-, spelled⟩
  · exact spelled ▸ List.prefix_append _ _
  · exact spelled ▸ List.prefix_append _ _

/-- A name in a directory leads on from the directory. -/
theorem leadsOn_join (nonempty : outer.isEmpty = false) (name : String) :
    outer.LeadsOn (outer.join name) name.toList := by
  have noText : outer.text.isEmpty = false := nonempty
  unfold join
  rw [noText, Bool.false_or]
  split
  · rename_i ended
    exact .inr ⟨of_decide_eq_true ended, String.toList_append⟩
  · refine .inl ?_
    rw [String.toList_append, String.toList_append, List.append_assoc]
    rfl

/-! ### Pieces -/

/-- The pieces of a text, glued together, are the text. -/
theorem glue_split (cs : List Char) : glue (split cs) = cs := by
  unfold split
  induction cs with
  | nil => rfl
  | cons c rest ih =>
      obtain ⟨piece, others, cut⟩ := List.exists_cons_of_ne_nil (pieces_ne_nil (· == '/') rest)
      rw [cut] at ih
      by_cases separates : c = '/'
      · subst separates
        have behind : pieces (· == '/') ('/' :: rest) = [] :: piece :: others :=
          (pieces_cons_separator rest rfl).trans (congrArg _ cut)
        rw [behind]
        exact congrArg _ ih
      · have joined : pieces (· == '/') (c :: rest) = (c :: piece) :: others :=
          pieces_cons_of_not (beq_eq_false_iff_ne.mpr separates) cut
        rw [joined]
        cases others with
        | nil => exact congrArg _ ih
        | cons other others => exact congrArg _ ih

/-- Two runs of pieces are glued with a slash between them. -/
theorem glue_append {front behind : List (List Char)} (nonempty : front ≠ []) (more : behind ≠ []) :
    glue (front ++ behind) = glue front ++ '/' :: glue behind := by
  induction front with
  | nil => exact absurd rfl nonempty
  | cons piece front ih =>
      cases front with
      | nil =>
          obtain ⟨other, others, rfl⟩ := List.exists_cons_of_ne_nil more
          rfl
      | cons second front =>
          have behindFirst := ih (List.cons_ne_nil _ _)
          show piece ++ '/' :: glue (second :: front ++ behind) = _
          rw [behindFirst]
          simp [glue]

/-- Slashes alone have empty pieces. -/
theorem split_slashes (count : Nat) : split (List.replicate count '/') = List.replicate (count + 1) [] := by
  induction count with
  | zero => rfl
  | succ count ih =>
      unfold split at ih ⊢
      rw [List.replicate_succ, pieces_cons_separator _ rfl, ih]
      rfl

/-- A slash cuts a text in two. -/
theorem split_append (front behind : List Char) : split (front ++ '/' :: behind) = split front ++ split behind :=
  pieces_append front behind rfl

theorem split_ne_nil (cs : List Char) : split cs ≠ [] := pieces_ne_nil _ cs

end Path

/-! ## Looking up -/

namespace FileTree

variable {tree : FileTree} {location next : Location} {component : List Char}

/-- Only a directory has components behind it. -/
theorem directory_of_walk (walked : tree.walk location component = .ok next) :
    tree.node? location = some .directory := by
  unfold walk at walked
  split at walked
  · exact absurd walked nofun
  · exact absurd walked nofun
  · assumption

/-- In a directory a trivial component leads nowhere else… -/
theorem walk_trivial (directory : tree.node? location = some .directory)
    (trivial : Path.isTrivial component = true) : tree.walk location component = .ok location := by
  rw [walk, directory]
  exact if_pos trivial

/-- …nor do several. -/
theorem foldlM_trivial (directory : tree.node? location = some .directory) {components : List (List Char)}
    (trivial : ∀ component ∈ components, Path.isTrivial component = true) :
    components.foldlM tree.walk location = .ok location := by
  induction components with
  | nil => rfl
  | cons component rest ih =>
      obtain ⟨here, others⟩ := List.forall_mem_cons.mp trivial
      rw [foldlM_cons_of_ok (walk_trivial directory here), ih others]

/-- Behind anything but a directory every component leads to the same failure. -/
theorem walk_of_not_directory (other : tree.node? location ≠ some .directory) :
    ∃ cause, (cause = .notFound ∨ cause = .notADirectory) ∧
      (tree.node? location = none ↔ cause = .notFound) ∧ ∀ component, tree.walk location component = .error cause := by
  cases node : tree.node? location with
  | none => exact ⟨.notFound, .inl rfl, iff_of_true rfl rfl, fun _ => by rw [walk, node]⟩
  | some found =>
      cases found with
      | directory => exact absurd node other
      | file content =>
          refine ⟨.notADirectory, .inr rfl, iff_of_false (Option.some_ne_none _) (by rintro ⟨⟩), fun _ => ?_⟩
          rw [walk, node]

/-- A trivial component in front of another one does not matter. -/
theorem walk_bind_trivial {trivial : List Char} (isTrivial : Path.isTrivial trivial = true) :
    (tree.walk location trivial >>= (tree.walk · component)) = tree.walk location component := by
  by_cases directory : tree.node? location = some .directory
  · rw [walk_trivial directory isTrivial]
    rfl
  · obtain ⟨cause, -, -, failed⟩ := walk_of_not_directory directory
    rw [failed, failed]
    rfl

/-- Where a path begins that is not empty. -/
def base (tree : FileTree) : List Char → Location
  | '/' :: _ => []
  | _ => tree.current

/-- The components of a path that is not empty. -/
def components : List Char → List (List Char)
  | '/' :: rest => Path.split rest
  | cs => Path.split cs

section Start

variable {c : Char} (rest : List Char)

/-- A path without a slash at its front begins at the current directory… -/
theorem base_of_ne_slash (noSlash : c ≠ '/') : tree.base (c :: rest) = tree.current := by
  unfold base
  split
  · rename_i same
    exact absurd (List.cons.inj same).1 noSlash
  · rfl

/-- …and all of it is components. -/
theorem components_of_ne_slash (noSlash : c ≠ '/') : components (c :: rest) = Path.split (c :: rest) := by
  unfold components
  split
  · rename_i same
    exact absurd (List.cons.inj same).1 noSlash
  · rfl

end Start

theorem follow_eq {path : Path} (nonempty : path.isEmpty = false) :
    tree.follow path = (components path.text.toList).foldlM tree.walk (tree.base path.text.toList) := by
  obtain ⟨c, rest, text⟩ := List.exists_cons_of_ne_nil (Path.isEmpty_eq_false_iff.mp nonempty)
  unfold follow
  rw [text]
  by_cases rooted : c = '/'
  · subst rooted
    rfl
  · rw [base_of_ne_slash rest rooted, components_of_ne_slash rest rooted]
    split
    · rename_i same
      exact absurd same (List.cons_ne_nil c rest)
    · rename_i same
      exact absurd (List.cons.inj same).1 rooted
    · rfl

/-- Components behind a slash. -/
theorem components_append {front : List Char} (nonempty : front ≠ []) (behind : List Char) :
    components (front ++ '/' :: behind) = components front ++ Path.split behind := by
  obtain ⟨c, rest, rfl⟩ := List.exists_cons_of_ne_nil nonempty
  by_cases rooted : c = '/'
  · subst rooted
    exact Path.split_append rest behind
  · rw [List.cons_append, components_of_ne_slash _ rooted, components_of_ne_slash _ rooted, ← List.cons_append]
    exact Path.split_append _ _

theorem base_append {front : List Char} (nonempty : front ≠ []) (behind : List Char) :
    tree.base (front ++ behind) = tree.base front := by
  obtain ⟨c, rest, rfl⟩ := List.exists_cons_of_ne_nil nonempty
  by_cases rooted : c = '/'
  · subst rooted
    rfl
  · rw [List.cons_append, base_of_ne_slash _ rooted, base_of_ne_slash _ rooted]

/-- **A path that leads on** is looked up from where the other one leads. -/
theorem follow_of_leadsOn {outer path : Path} {more : List Char} (nonempty : outer.isEmpty = false)
    (leadsOn : outer.LeadsOn path more) :
    tree.follow path = tree.follow outer >>= (Path.split more).foldlM tree.walk := by
  have spelled := Path.isEmpty_eq_false_iff.mp nonempty
  have nonemptyToo : path.isEmpty = false := Path.isEmpty_eq_false_iff.mpr fun empty =>
    spelled (List.prefix_nil.mp (empty ▸ leadsOn.isPrefix))
  rw [follow_eq nonempty, follow_eq nonemptyToo]
  rcases leadsOn with longer | ⟨ended, longer⟩
  · rw [longer, components_append spelled, base_append spelled, List.foldlM_append]
  · -- the empty component at the end of the other path does not matter
    obtain ⟨front, slash⟩ := List.getLast?_eq_some_iff.mp ended
    obtain ⟨first, rest, cut⟩ := List.exists_cons_of_ne_nil (Path.split_ne_nil more)
    rw [longer, base_append spelled, slash, List.append_assoc, List.singleton_append, cut]
    have skipped (location : Location) :
        (tree.walk location [] >>= (first :: rest).foldlM tree.walk) = (first :: rest).foldlM tree.walk location :=
      calc (tree.walk location [] >>= (first :: rest).foldlM tree.walk)
        _ = (tree.walk location [] >>= (tree.walk · first)) >>= rest.foldlM tree.walk := by
          rw [bind_assoc]
          rfl
        _ = tree.walk location first >>= rest.foldlM tree.walk := by rw [walk_bind_trivial rfl]
        _ = (first :: rest).foldlM tree.walk location := rfl
    cases front with
    | nil =>
        show (Path.split more).foldlM tree.walk _ = ([[]] : List (List Char)).foldlM tree.walk _ >>= _
        rw [cut, ← skipped, List.foldlM_cons, bind_assoc]
        rfl
    | cons c front =>
        rw [components_append (List.cons_ne_nil c front), components_append (List.cons_ne_nil c front), cut,
          List.foldlM_append, List.foldlM_append, bind_assoc]
        refine bind_congr fun location => ?_
        show _ = ([[]] : List (List Char)).foldlM tree.walk location >>= _
        rw [← skipped, List.foldlM_cons, bind_assoc]
        rfl

/-! ## Limits -/

/-- What is within the limits is so without its end. -/
theorem admitted_of_begins {outer path : Path} (begins : outer.text.toList <+: path.text.toList)
    (within : admitted path = .ok path) : admitted outer = .ok outer := by
  unfold admitted at within ⊢
  split at within
  · exact absurd within nofun
  · rename_i noNull
    split at within
    · exact absurd within nofun
    · rename_i short
      obtain ⟨behind, whole⟩ := begins
      have spelled : path.text = outer.text ++ String.ofList behind := by
        rw [← String.toList_inj, String.toList_append, String.toList_ofList, whole]
      rw [spelled, String.utf8ByteSize_append] at short
      rw [if_neg, if_neg]
      · omega
      · intro null
        refine noNull (List.contains_iff_mem.mpr ?_)
        rw [← whole]
        exact List.mem_append_left _ (List.contains_iff_mem.mp null)

/-- A path is looked up from where it leads, if it is within the limits. -/
theorem resolve_of_admitted {path : Path} (within : admitted path = .ok path) :
    tree.resolve path = tree.follow path := by
  rw [resolve, within]
  rfl

theorem resolve_eq_ok_iff {path : Path} {location : Location} :
    tree.resolve path = .ok location ↔ admitted path = .ok path ∧ tree.follow path = .ok location := by
  constructor
  · intro resolved
    obtain ⟨path', within, followed⟩ := both_ok resolved
    obtain rfl := admitted_eq_ok within
    exact ⟨within, followed⟩
  · rintro ⟨within, followed⟩
    rw [resolve_of_admitted within, followed]

/-! ## Names in directories -/

/-- **Directories** to which a path leads, so that files can be put into them.  The empty path leads to the current
one. -/
structure Leads (tree : FileTree) (path : Path) (location : Location) : Prop where
  directory : tree.node? location = some .directory
  led : if path.isEmpty then location = tree.current else tree.resolve path = .ok location

/-- **The location of a name** in a directory, if a path to it is within the limits. -/
def entry (path : Path) (location : Location) (name : String) : Except DiskError Location := do
  let _ ← admitted (path.join name)
  if longestName < name.utf8ByteSize then .error .nameTooLong else .ok (location ++ [name])

theorem entry_eq_ok {path : Path} {name : String} (found : entry path location name = .ok next) :
    next = location ++ [name] := by
  obtain ⟨-, -, found⟩ := both_ok found
  split at found
  · exact absurd found nofun
  · exact (Except.ok.inj found).symm

/-- A file name in a directory. -/
theorem walk_name (directory : tree.node? location = some .directory) {name : String} (isName : IsFileName name) :
    tree.walk location name.toList =
      if longestName < name.utf8ByteSize then .error .nameTooLong else .ok (location ++ [name]) := by
  rw [walk, directory]
  dsimp only
  rw [if_neg (Bool.eq_false_iff.mp isName.named), if_neg isName.inner, String.ofList_toList]

theorem split_name {name : String} (isName : IsFileName name) : Path.split name.toList = [name.toList] :=
  pieces_of_solid fun _ member => beq_eq_false_iff_ne.mpr fun same => isName.whole (same ▸ member)

/-- A file name alone is looked up in the current directory. -/
theorem follow_join_of_isEmpty {path : Path} (empty : path.isEmpty = true) {name : String} (isName : IsFileName name) :
    tree.follow (path.join name) = tree.walk tree.current name.toList := by
  have spelled : path.join name = ⟨name⟩ := by
    have noText : path.text = "" := String.isEmpty_iff.mp empty
    rw [Path.join, noText]
    exact congrArg Path.mk String.empty_append
  obtain ⟨c, rest, text⟩ : ∃ c rest, name.toList = c :: rest := by
    refine List.exists_cons_of_ne_nil fun empty => ?_
    have named := isName.named
    rw [empty] at named
    exact absurd named (by decide)
  have noSlash : c ≠ '/' := fun same => isName.whole (text ▸ same ▸ List.mem_cons_self)
  have nonempty : (Path.mk name).isEmpty = false :=
    Path.isEmpty_eq_false_iff.mpr (text ▸ List.cons_ne_nil c rest)
  have here : components name.toList = [name.toList] := by
    rw [← split_name isName, text, components_of_ne_slash rest noSlash]
  have begins : tree.base name.toList = tree.current := by
    rw [text, base_of_ne_slash rest noSlash]
  rw [spelled, follow_eq nonempty, here, begins]
  exact bind_pure _

/-- **A name in a directory** is looked up in that directory. -/
theorem resolve_join {path : Path} (leads : tree.Leads path location) {name : String}
    (isName : IsFileName name) : tree.resolve (path.join name) = entry path location name := by
  have followed : tree.follow (path.join name) = tree.walk location name.toList := by
    have led := leads.led
    split at led
    · rename_i empty
      rw [led, follow_join_of_isEmpty empty isName]
    · rename_i nonempty
      have nonempty : path.isEmpty = false := Bool.eq_false_iff.mpr nonempty
      rw [follow_of_leadsOn nonempty (Path.leadsOn_join nonempty name), (resolve_eq_ok_iff.mp led).2,
        split_name isName]
      exact bind_pure (tree.walk location name.toList)
  rw [walk_name leads.directory isName] at followed
  unfold resolve entry
  cases within : admitted (path.join name) with
  | error cause => rfl
  | ok path' =>
      obtain rfl := admitted_eq_ok within
      exact followed

/-- Where no directory is, no name is found. -/
theorem resolve_join_of_nowhere {path : Path} (empty : path.isEmpty = true)
    (noDirectory : tree.node? tree.current ≠ some .directory) {name : String} (isName : IsFileName name) :
    ∃ cause, tree.resolve (path.join name) = .error cause := by
  obtain ⟨cause, -, -, failed⟩ := walk_of_not_directory noDirectory
  unfold resolve
  cases within : admitted (path.join name) with
  | error cause => exact ⟨cause, rfl⟩
  | ok path' =>
      obtain rfl := admitted_eq_ok within
      exact ⟨cause, (follow_join_of_isEmpty empty isName).trans (failed _)⟩

/-- Directories that are kept are led to. -/
theorem KeepsDirectories.leads {after : FileTree} (keeps : KeepsDirectories tree after) {path : Path}
    (leads : tree.Leads path location) : after.Leads path location := by
  refine ⟨keeps.directories location leads.directory, ?_⟩
  have led := leads.led
  split at led
  · rename_i empty
    rw [if_pos empty, led, keeps.current]
  · rename_i nonempty
    rw [if_neg nonempty]
    exact keeps.resolve led

end FileTree

/-! ## Slashes at the end -/

/-- **A path leads on** from itself without the slashes at its end. -/
theorem Path.leadsOn_dropSlashes (path : Path) : FileTree.dropSlashes path = path ∨
    (FileTree.dropSlashes path).isEmpty = false ∧
      ∃ count, (FileTree.dropSlashes path).LeadsOn path (List.replicate count '/') := by
  unfold FileTree.dropSlashes
  dsimp only
  split
  · exact .inl rfl
  · rename_i kept
    rw [List.isEmpty_iff] at kept
    have whole := List.takeWhile_append_dropWhile (p := (· == '/')) (l := path.text.toList.reverse)
    have slashes : path.text.toList.reverse.takeWhile (· == '/') =
        List.replicate (path.text.toList.reverse.takeWhile (· == '/')).length '/' := by
      refine List.eq_replicate_length.mpr fun c member => ?_
      exact eq_of_beq (List.all_eq_true.mp List.all_takeWhile c member)
    -- What is dropped from the reversed text is in the text itself behind what is kept.
    have spelled : path.text.toList = (path.text.toList.reverse.dropWhile (· == '/')).reverse ++
        List.replicate (path.text.toList.reverse.takeWhile (· == '/')).length '/' := by
      rw [← List.reverse_inj, List.reverse_append, List.reverse_reverse, List.reverse_replicate, ← slashes, whole]
    cases count : (path.text.toList.reverse.takeWhile (· == '/')).length with
    | zero =>
        rw [count, List.replicate_zero, List.append_nil] at spelled
        left
        rw [← spelled, String.ofList_toList]
    | succ count' =>
        rw [count, List.replicate_succ] at spelled
        refine .inr ⟨isEmpty_eq_false_iff.mpr ?_, count', .inl ?_⟩
        · rw [String.toList_ofList]
          exact fun empty => kept (List.reverse_eq_nil_iff.mp empty)
        · rw [String.toList_ofList]
          exact spelled

/-! ## Paths in front of the last component -/

namespace Path

variable {path outer : Path}

/-- Every piece is part of the text. -/
theorem mem_glue {pieces : List (List Char)} {piece : List Char} (member : piece ∈ pieces) {c : Char}
    (inside : c ∈ piece) : c ∈ glue pieces := by
  induction pieces with
  | nil => exact absurd member List.not_mem_nil
  | cons first rest ih =>
      cases rest with
      | nil =>
          obtain rfl := List.mem_singleton.mp member
          exact inside
      | cons second rest =>
          rcases List.mem_cons.mp member with rfl | behind
          · exact List.mem_append_left _ inside
          · exact List.mem_append_right _ (List.mem_cons_of_mem _ (ih behind))

/-- A path is its start and what stands behind it.  Behind a dot there is a slash or nothing, and no slash is behind
a start that has no text. -/
theorem parts_spelled (path : Path) : ∃ start body, path.text.toList = start.text ++ body ∧
    path.parts = (start, (split body).reverse.dropWhile isTrivial) ∧
    match start with
    | .root => True
    | .dot => body = [] ∨ ∃ rest, body = '/' :: rest
    | .here => ∀ rest, body ≠ '/' :: rest := by
  unfold parts
  split
  rename_i start body begins
  split at begins
  · rename_i text
    obtain ⟨rfl, rfl⟩ := Prod.mk.inj begins
    exact ⟨_, _, text, rfl, trivial⟩
  · rename_i text
    obtain ⟨rfl, rfl⟩ := Prod.mk.inj begins
    exact ⟨_, _, text, rfl, .inl rfl⟩
  · rename_i text
    obtain ⟨rfl, rfl⟩ := Prod.mk.inj begins
    exact ⟨_, _, text, rfl, .inr ⟨_, rfl⟩⟩
  · rename_i noRoot _ _
    obtain ⟨rfl, rfl⟩ := Prod.mk.inj begins
    exact ⟨_, _, rfl, rfl, noRoot⟩

/-- The pieces in front of the last one that is not trivial, and those behind it. -/
theorem pieces_of_parts {body last : List Char} {before : List (List Char)}
    (found : (split body).reverse.dropWhile isTrivial = last :: before) :
    isTrivial last = false ∧ ∃ behind, split body = before.reverse ++ last :: behind ∧
      ∀ piece ∈ behind, isTrivial piece = true := by
  have named := List.head?_dropWhile_not isTrivial (split body).reverse
  rw [found] at named
  have whole := List.takeWhile_append_dropWhile (p := isTrivial) (l := (split body).reverse)
  rw [found] at whole
  refine ⟨named, ((split body).reverse.takeWhile isTrivial).reverse, ?_, ?_⟩
  · rw [← List.reverse_inj, List.reverse_append, List.reverse_cons, List.reverse_reverse, List.reverse_reverse,
      List.append_assoc, List.singleton_append, whole]
  · intro piece member
    exact List.all_eq_true.mp List.all_takeWhile piece (List.mem_reverse.mp member)

/-- What is not trivial holds more than slashes, if it is a piece. -/
theorem exists_ne_slash {body piece : List Char} (member : piece ∈ split body) (named : isTrivial piece = false) :
    ∃ c ∈ piece, c ≠ '/' := by
  cases piece with
  | nil => exact absurd named (by decide)
  | cons c rest =>
      refine ⟨c, List.mem_cons_self, ?_⟩
      rintro rfl
      exact slash_not_mem_split member List.mem_cons_self

/-- **A path leads on** from the path in front of its last component. -/
theorem leadsOn_parent (parent : path.parent? = some outer) (nonempty : outer.isEmpty = false) :
    ∃ more, outer.LeadsOn path more ∧ ∃ c ∈ more, c ≠ '/' := by
  obtain ⟨start, body, spelled, parts, begins⟩ := path.parts_spelled
  unfold parent? at parent
  rw [parts] at parent
  cases found : (split body).reverse.dropWhile isTrivial with
  | nil =>
      rw [found] at parent
      -- only the empty path stands in front of the one that is a dot
      cases start with
      | dot =>
          obtain rfl := Option.some.inj parent
          exact absurd nonempty (by decide)
      | root | here => exact absurd parent nofun
  | cons last before =>
      rw [found] at parent
      obtain rfl := Option.some.inj parent
      obtain ⟨named, behind, cut, -⟩ := pieces_of_parts found
      have member : last ∈ split body := cut ▸ List.mem_append_right _ List.mem_cons_self
      obtain ⟨c, inLast, noSlash⟩ := exists_ne_slash member named
      unfold LeadsOn
      rw [String.toList_ofList]
      have kept := List.takeWhile_append_dropWhile (p := isTrivial) (l := before)
      cases front : before.dropWhile isTrivial with
      | nil =>
          have inBody : c ∈ body := by
            rw [← glue_split body]
            exact mem_glue member inLast
          rw [front] at nonempty
          cases start with
          | root => exact ⟨body, .inr ⟨rfl, spelled⟩, c, inBody, noSlash⟩
          | here => exact absurd nonempty (by decide)
          | dot =>
              rcases begins with rfl | ⟨rest, rfl⟩
              · exact absurd inBody List.not_mem_nil
              · exact ⟨rest, .inl spelled, c, (List.mem_cons.mp inBody).resolve_left noSlash, noSlash⟩
      | cons piece others =>
          rw [front] at kept
          have twice : split body = (piece :: others).reverse ++
              ((before.takeWhile isTrivial).reverse ++ last :: behind) := by
            rw [cut, ← List.append_assoc, ← List.reverse_append, kept]
          refine ⟨glue ((before.takeWhile isTrivial).reverse ++ last :: behind), .inl ?_, c, ?_, noSlash⟩
          · rw [spelled, ← glue_split body, twice, List.append_assoc, glue_append]
            · exact fun empty => absurd (List.reverse_eq_nil_iff.mp empty) (List.cons_ne_nil _ _)
            · exact List.append_ne_nil_of_right_ne_nil _ (List.cons_ne_nil _ _)
          · exact mem_glue (List.mem_append_right _ List.mem_cons_self) inLast

/-- A path with a name has a path in front of it, which begins where the path does. -/
theorem exists_parent_of_name {name : List Char} (named : path.name? = some name) : ∃ start body front,
    path.text.toList = Start.text start ++ body ∧ path.parent? = some ⟨String.ofList (start.text ++ glue front)⟩ ∧
      match start with
      | .root => True
      | .dot => body = [] ∨ ∃ rest, body = '/' :: rest
      | .here => ∀ rest, body ≠ '/' :: rest := by
  obtain ⟨start, body, spelled, parts, begins⟩ := path.parts_spelled
  unfold name? at named
  unfold parent?
  rw [parts] at named ⊢
  cases found : (split body).reverse.dropWhile isTrivial with
  | nil =>
      rw [found] at named
      exact absurd named nofun
  | cons last before => exact ⟨start, body, _, spelled, rfl, begins⟩

/-- So does the path without slashes at its end. -/
theorem LeadsOn.dropSlashes {more : List Char} (leadsOn : outer.LeadsOn path more) {c : Char} (inside : c ∈ more)
    (noSlash : c ≠ '/') : ∃ more', outer.LeadsOn (FileTree.dropSlashes path) more' := by
  have kept (front : List Char) : (front ++ more).reverse.dropWhile (· == '/') =
      more.reverse.dropWhile (· == '/') ++ front.reverse := by
    rw [List.reverse_append, List.dropWhile_append, if_neg]
    rw [List.isEmpty_iff, List.dropWhile_eq_nil_iff]
    intro slashes
    exact absurd (slashes c (List.mem_reverse.mpr inside)) (by simpa using noSlash)
  have some (front : List Char) : ((front ++ more).reverse.dropWhile (· == '/')).isEmpty = false := by
    rw [List.isEmpty_eq_false_iff]
    intro empty
    have slashes := List.dropWhile_eq_nil_iff.mp empty c (by simp [inside])
    exact absurd slashes (by simpa using noSlash)
  refine ⟨(more.reverse.dropWhile (· == '/')).reverse, ?_⟩
  unfold LeadsOn FileTree.dropSlashes
  rcases leadsOn with spelled | ⟨ended, spelled⟩
  · left
    rw [List.append_cons] at spelled
    dsimp only
    rw [spelled, some, kept]
    simp
  · right
    refine ⟨ended, ?_⟩
    dsimp only
    rw [spelled, some, kept]
    simp

/-- **The name** of a path is its last component but for trivial ones. -/
theorem components_of_name {name : List Char} (named : path.name? = some name) :
    path.isEmpty = false ∧ name ≠ ['.', '.'] ∧ isTrivial name = false ∧ ∃ front behind,
      FileTree.components path.text.toList = front ++ name :: behind ∧ ∀ piece ∈ behind, isTrivial piece = true := by
  obtain ⟨start, body, spelled, parts, begins⟩ := path.parts_spelled
  unfold name? at named
  rw [parts] at named
  split at named
  · exact absurd named nofun
  · rename_i last before found
    split at named
    · exact absurd named nofun
    · rename_i inner
      obtain rfl := Option.some.inj named
      obtain ⟨isName, behind, cut, trivial⟩ := pieces_of_parts found
      have nonempty : body ≠ [] := by
        rintro rfl
        have single : split [] = [[]] := rfl
        have only : last ∈ [[]] := single ▸ cut ▸ List.mem_append_right _ List.mem_cons_self
        rw [List.mem_singleton.mp only] at isName
        exact absurd isName (by decide)
      -- the components are the pieces, but for a dot in the place of the first one
      have components : ∃ front, FileTree.components path.text.toList = front ++ last :: behind := by
        rw [spelled]
        cases start with
        | root => exact ⟨before.reverse, cut⟩
        | here =>
            obtain ⟨c, rest, rfl⟩ := List.exists_cons_of_ne_nil nonempty
            have noSlash : c ≠ '/' := fun same => begins rest (congrArg (· :: rest) same)
            exact ⟨before.reverse, (FileTree.components_of_ne_slash rest noSlash).trans cut⟩
        | dot =>
            obtain ⟨rest, rfl⟩ := begins.resolve_left nonempty
            have whole : split ('/' :: rest) = [] :: split rest := split_append [] rest
            rw [whole] at cut
            cases front : before.reverse with
            | nil =>
                rw [front] at cut
                rw [← (List.cons.inj cut).1] at isName
                exact absurd isName (by decide)
            | cons piece others =>
                rw [front] at cut
                refine ⟨['.'] :: others, ?_⟩
                show FileTree.components (['.'] ++ '/' :: rest) = _
                rw [FileTree.components_append (List.cons_ne_nil _ _), (List.cons.inj cut).2]
                rfl
      obtain ⟨front, components⟩ := components
      refine ⟨isEmpty_eq_false_iff.mpr ?_, fun same => inner (beq_iff_eq.mpr same), isName, front, behind,
        components, trivial⟩
      rw [spelled]
      exact List.append_ne_nil_of_right_ne_nil _ nonempty

end Path

namespace FileTree

variable {tree : FileTree}

/-- **The name of a path** is the last one of its location. -/
theorem getLast?_of_resolve {path : Path} {name : List Char} (named : path.name? = some name)
    {location : Location} (resolved : tree.resolve path = .ok location) :
    location.getLast? = some (String.ofList name) := by
  obtain ⟨nonempty, inner, isName, front, behind, components, trivial⟩ := Path.components_of_name named
  have followed := (resolve_eq_ok_iff.mp resolved).2
  rw [follow_eq nonempty, components, List.foldlM_append] at followed
  obtain ⟨outer, -, followed⟩ := both_ok followed
  obtain ⟨reached, stepped, followed⟩ := foldlM_cons_eq_ok followed
  have last : reached.getLast? = some (String.ofList name) := by
    rw [walk, directory_of_walk stepped] at stepped
    dsimp only at stepped
    rw [if_neg (Bool.eq_false_iff.mp isName), if_neg inner] at stepped
    split at stepped
    · cases stepped
    · obtain rfl := Except.ok.inj stepped
      exact List.getLast?_concat
  cases behind with
  | nil =>
      obtain rfl := Except.ok.inj followed
      exact last
  | cons piece others =>
      obtain ⟨_, walked, -⟩ := foldlM_cons_eq_ok followed
      rw [foldlM_trivial (directory_of_walk walked) trivial] at followed
      obtain rfl := Except.ok.inj followed
      exact last

end FileTree

end JackToolchain.Disk

import JackToolchain.Proofs.Disk.Lookup

/-!
# What stands at paths

What is found, read, listed and written at a path, told from the location to which it leads.

## Main Definitions

* `FileTree.isFile` — whether a file stands at a path.
* `FileTree.SameFile` — a file that two trees have in common.

## Main Statements

* `FileTree.find_of_resolve`, `FileTree.read_of_resolve` — what is found and read.
* `FileTree.sameFile_of_nodes` — files are the same where nothing is changed but for new directories.
* `FileTree.exists_list` — the names in a directory are those at which something stands.
* `FileTree.names_of_follow` — paths lead to locations with file names only.
-/

namespace JackToolchain.Disk

namespace FileTree

variable {tree one two : FileTree} {path : Path} {location : Location}

/-! ## Looking -/

/-- What is found where a path leads. -/
theorem find_of_resolve (resolved : tree.resolve path = .ok location) :
    tree.find path = match tree.node? location with
      | some node => .ok (location, node)
      | none => .error .notFound := by
  rw [find, resolved]
  dsimp only [bind, Except.bind]
  cases tree.node? location <;> rfl

/-- What stands there. -/
theorem kind_of_resolve (resolved : tree.resolve path = .ok location) :
    tree.kind path = match tree.node? location with
      | some node => .ok node.kind
      | none => .error .notFound := by
  rw [kind, find_of_resolve resolved]
  cases tree.node? location <;> rfl

theorem kind_of_refused {cause : DiskError} (refused : tree.resolve path = .error cause) :
    tree.kind path = .error cause := by
  rw [kind, find, refused]
  rfl

theorem kind_eq_ok {kind : NodeKind} (found : tree.kind path = .ok kind) :
    ∃ location node, tree.resolve path = .ok location ∧ tree.node? location = some node ∧ node.kind = kind := by
  cases resolved : tree.resolve path with
  | error cause => exact absurd ((kind_of_refused resolved).symm.trans found) nofun
  | ok location =>
      rw [kind_of_resolve resolved] at found
      cases node : tree.node? location with
      | none =>
          rw [node] at found
          exact absurd found nofun
      | some node' =>
          rw [node] at found
          exact ⟨location, node', rfl, node, Except.ok.inj found⟩

/-- Whether a file stands at a path. -/
def isFile (tree : FileTree) (path : Path) : Bool :=
  match tree.kind path with
  | .ok .file => true
  | _ => false

theorem isFile_iff_kind : tree.isFile path = true ↔ tree.kind path = .ok .file := by
  unfold isFile
  split
  · rename_i found
    exact iff_of_true rfl found
  · rename_i other
    exact iff_of_false Bool.false_ne_true other

theorem isFile_iff : tree.isFile path = true ↔
    ∃ location content, tree.resolve path = .ok location ∧ tree.node? location = some (.file content) := by
  constructor
  · intro stands
    obtain ⟨location, node, resolved, stands, isFile⟩ := kind_eq_ok (isFile_iff_kind.mp stands)
    cases node with
    | directory => exact absurd isFile nofun
    | file content => exact ⟨location, content, resolved, stands⟩
  · rintro ⟨location, content, resolved, stands⟩
    rw [isFile, kind_of_resolve resolved, stands]
    rfl

/-- Where two trees lead alike, and the same stands, the same is found. -/
theorem find_congr (led : two.resolve path = one.resolve path)
    (same : ∀ location, one.resolve path = .ok location → two.node? location = one.node? location) :
    two.find path = one.find path := by
  rw [find, find, led]
  cases resolved : one.resolve path with
  | error cause => rfl
  | ok location =>
      dsimp only [bind, Except.bind]
      rw [same location resolved]

theorem read_congr (found : two.find path = one.find path) : two.read path = one.read path := by
  rw [read, read, found]

/-- **The same file**: if it stands at the path in one tree, it does in the other, with the same content. -/
structure SameFile (one two : FileTree) (path : Path) : Prop where
  isFile : two.isFile path = one.isFile path
  read : one.isFile path = true → two.read path = one.read path

theorem sameFile_of_find (found : two.find path = one.find path) : SameFile one two path :=
  ⟨by rw [isFile, isFile, kind, kind, found], fun _ => read_congr found⟩

/-- Where something is the same, or where a directory is now and nothing was, the same files are. -/
theorem sameFile_of_nodes (led : two.resolve path = one.resolve path)
    (nodes : ∀ location, one.resolve path = .ok location → two.node? location = one.node? location ∨
      one.node? location = none ∧ two.node? location = some .directory) : SameFile one two path := by
  cases resolved : one.resolve path with
  | error cause => exact sameFile_of_find (find_congr led fun _ same => absurd (resolved.symm.trans same) nofun)
  | ok location =>
      rcases nodes location resolved with same | ⟨free, directory⟩
      · refine sameFile_of_find (find_congr led fun location' resolved' => ?_)
        obtain rfl := Except.ok.inj (resolved.symm.trans resolved')
        exact same
      · have absent : one.isFile path = false := by
          rw [isFile, kind_of_resolve resolved, free]
        refine ⟨?_, fun stands => absurd (absent.symm.trans stands) Bool.false_ne_true⟩
        rw [absent, isFile, kind_of_resolve (led.trans resolved), directory]
        rfl

/-- The text that is read where a path leads. -/
theorem read_of_resolve (resolved : tree.resolve path = .ok location) :
    tree.read path = match tree.node? location with
      | none => .error .notFound
      | some .directory => .error .isADirectory
      | some (.file content) => match String.fromUTF8? content with
        | some content => .ok content
        | none => .error .notText := by
  rw [read, find_of_resolve resolved]
  cases tree.node? location with
  | none => rfl
  | some node =>
      cases node with
      | directory => rfl
      | file content =>
          dsimp only [bind, Except.bind, pure, Except.pure]
          cases String.fromUTF8? content <;> rfl

/-- What is read tells whether there is a file. -/
theorem isFile_congr_of_read (led : two.resolve path = one.resolve path) (same : two.read path = one.read path) :
    two.isFile path = one.isFile path := by
  have known (tree : FileTree) {location : Location} (resolved : tree.resolve path = .ok location) :
      tree.isFile path = match tree.read path with
        | .ok _ | .error .notText => true
        | _ => false := by
    rw [read_of_resolve resolved, isFile, kind_of_resolve resolved]
    cases tree.node? location with
    | none => rfl
    | some node =>
        cases node with
        | directory => rfl
        | file content =>
            dsimp only
            cases String.fromUTF8? content <;> rfl
  cases resolved : one.resolve path with
  | error cause =>
      rw [isFile, isFile, kind_of_refused resolved, kind_of_refused (led.trans resolved)]
  | ok location => rw [known one resolved, known two (led.trans resolved), same]

/-! ## Directories -/

/-- **The names in a directory** are those at which something stands. -/
theorem exists_list (resolved : tree.resolve path = .ok location) (directory : tree.node? location = some .directory) :
    ∃ names, tree.list path = .ok names ∧
      ∀ name, name ∈ names ↔ (tree.node? (location ++ [name])).isSome = true := by
  rw [list, find_of_resolve resolved, directory]
  refine ⟨_, rfl, fun name => ?_⟩
  rw [node?, if_neg (List.append_ne_nil_of_right_ne_nil _ (List.cons_ne_nil _ _)), List.mem_filterMap]
  constructor
  · rintro ⟨inner, member, last⟩
    split at last
    · rename_i outer
      obtain ⟨front, rfl⟩ := List.getLast?_eq_some_iff.mp last
      rw [List.dropLast_concat] at outer
      subst outer
      exact (Std.TreeMap.mem_iff_isSome_getElem?).mp (Std.TreeMap.mem_keys.mp member)
    · cases last
  · intro stands
    refine ⟨location ++ [name], Std.TreeMap.mem_keys.mpr (Std.TreeMap.mem_iff_isSome_getElem?.mpr stands), ?_⟩
    rw [List.dropLast_concat, if_pos rfl, List.getLast?_concat]

/-- Where a directory stands files can be put into it. -/
theorem leads_of_resolve (resolved : tree.resolve path = .ok location)
    (directory : tree.node? location = some .directory) : tree.Leads path location := by
  refine ⟨directory, ?_⟩
  split
  · rename_i empty
    have text : path.text = "" := String.isEmpty_iff.mp empty
    have followed := (resolve_eq_ok_iff.mp resolved).2
    rw [follow, text] at followed
    exact absurd followed nofun
  · exact resolved

/-- What is a file in a directory stands there. -/
theorem node?_of_isFile (leads : tree.Leads path location) {name : String} (isName : IsFileName name)
    (stands : tree.isFile (path.join name) = true) : (tree.node? (location ++ [name])).isSome = true := by
  obtain ⟨reached, content, resolved, file⟩ := isFile_iff.mp stands
  rw [resolve_join leads isName] at resolved
  rw [← entry_eq_ok resolved, file]
  rfl

/-! ## Writing -/

section Writing

variable {content : String}

/-- No file is written over a directory… -/
theorem write_of_directory (resolved : tree.resolve path = .ok location)
    (directory : tree.node? location = some .directory) : tree.write path content = .error .isADirectory := by
  rw [write, resolved]
  dsimp only [bind, Except.bind]
  rw [directory]
  rfl

/-- …but one is anywhere else… -/
theorem write_of_free (resolved : tree.resolve path = .ok location)
    (free : tree.node? location ≠ some .directory) :
    tree.write path content = .ok (tree.put location (.file content.toUTF8)) := by
  rw [write, resolved]
  dsimp only [bind, Except.bind]
  split
  · rename_i directory
    exact absurd directory free
  · rfl

/-- …to which the path leads. -/
theorem write_of_refused {cause : DiskError} (refused : tree.resolve path = .error cause) :
    tree.write path content = .error cause := by
  rw [write, refused]
  rfl

end Writing

/-! ## Names -/

/-- The names on the way to where a path leads. -/
theorem names_of_walk (proper : tree.HasFileNames) {component : List Char} (solid : '/' ∉ component)
    {next : Location} (walked : tree.walk location component = .ok next) : ∀ name ∈ next, IsFileName name := by
  -- One walks only from directories; but for the root, these are in the tree with their names.
  have directory := directory_of_walk walked
  have names : ∀ name ∈ location, IsFileName name := by
    by_cases root : location = []
    · subst root
      exact List.forall_mem_nil _
    · rw [node?, if_neg root] at directory
      refine proper location (Std.TreeMap.mem_keys.mpr ?_)
      rw [Std.TreeMap.mem_iff_isSome_getElem?, directory]
      rfl
  rw [walk, directory] at walked
  dsimp only at walked
  split at walked
  · obtain rfl := Except.ok.inj walked
    exact names
  · rename_i named
    split at walked
    · obtain rfl := Except.ok.inj walked
      exact fun name member => names name (List.dropLast_subset _ member)
    · rename_i inner
      split at walked
      · cases walked
      · obtain rfl := Except.ok.inj walked
        refine List.forall_mem_append.mpr ⟨names, List.forall_mem_singleton.mpr ⟨?_, ?_, ?_⟩⟩
        · rwa [String.toList_ofList]
        · rw [String.toList_ofList]
          exact Bool.eq_false_iff.mpr named
        · rwa [String.toList_ofList]

theorem names_of_follow (proper : tree.HasFileNames) (followed : tree.follow path = .ok location) :
    ∀ name ∈ location, IsFileName name := by
  have run {components : List (List Char)} (nonempty : components ≠ [])
      (solid : ∀ component ∈ components, '/' ∉ component) {start : Location}
      (ran : components.foldlM tree.walk start = .ok location) : ∀ name ∈ location, IsFileName name := by
    induction components generalizing start with
    | nil => exact absurd rfl nonempty
    | cons component rest ih =>
        obtain ⟨here, others⟩ := List.forall_mem_cons.mp solid
        obtain ⟨next, walked, ran⟩ := foldlM_cons_eq_ok ran
        cases rest with
        | nil =>
            obtain rfl := Except.ok.inj ran
            exact names_of_walk proper here walked
        | cons second rest => exact ih (List.cons_ne_nil _ _) others ran
  unfold follow at followed
  split at followed
  · exact absurd followed nofun
  · exact run (Path.split_ne_nil _) (fun _ => Path.slash_not_mem_split) followed
  · exact run (Path.split_ne_nil _) (fun _ => Path.slash_not_mem_split) followed

/-- What is put at a location with file names. -/
theorem HasFileNames.put (proper : tree.HasFileNames) (names : ∀ name ∈ location, IsFileName name) (node : Node) :
    (tree.put location node).HasFileNames := by
  intro other member name inside
  have known : other = location ∨ other ∈ tree.nodes := by
    have inserted := Std.TreeMap.mem_keys.mp member
    change other ∈ tree.nodes.insert location node at inserted
    exact (Std.TreeMap.mem_insert.mp inserted).imp_left fun same => (Std.LawfulEqCmp.eq_of_compare same).symm
  rcases known with rfl | known
  · exact names name inside
  · exact proper other (Std.TreeMap.mem_keys.mpr known) name inside

end FileTree

end JackToolchain.Disk

import JackToolchain.Disk.Path
import JackToolchain.Proofs.Text.Words

/-!
# Names in paths

What names paths have, and paths to which a name is joined.

## Main Definitions

* `IsFileName` — a name that can stand behind a slash.
* `EndsIn` — a text that ends in a name.

## Main Statements

* `Path.slash_not_mem_name`, `Path.slash_not_mem_stem` — no name that a path has holds a slash.
* `Path.name?_join` — the name of a path to which a file name is joined.
* `NameParts.eq_of_extension` — a name with an extension is its two parts with a dot between them.
* `Path.parts_join_append` — the parts of the name of a file that ends in an extension.
-/

namespace JackToolchain.Disk

open Text

/-! ## Joined paths -/

/-- **File names**: neither empty nor one of the two dotted components, and without a slash. -/
structure IsFileName (name : String) : Prop where
  whole : '/' ∉ name.toList
  named : Path.isTrivial name.toList = false
  inner : name.toList ≠ ['.', '.']

instance (name : String) : Decidable (IsFileName name) :=
  decidable_of_iff ('/' ∉ name.toList ∧ Path.isTrivial name.toList = false ∧ name.toList ≠ ['.', '.'])
    ⟨fun ⟨whole, named, inner⟩ => ⟨whole, named, inner⟩, fun isName => ⟨isName.whole, isName.named, isName.inner⟩⟩

/-- A name with an ending that is long enough is a file name. -/
theorem isFileName_append {name ending : String} (plain : '/' ∉ name.toList)
    (solid : '/' ∉ ending.toList) (long : 2 < ending.toList.length) : IsFileName (name ++ ending) := by
  have longer : 2 < (name ++ ending).toList.length := by
    rw [String.toList_append, List.length_append]
    exact Nat.lt_add_left _ long
  refine ⟨?_, Bool.eq_false_iff.mpr fun trivial => ?_, fun same => ?_⟩
  · rw [String.toList_append, List.mem_append]
    exact fun inside => inside.elim plain solid
  · rcases Bool.or_eq_true_iff.mp trivial with empty | dot
    · rw [eq_of_beq empty] at longer
      exact absurd longer (by decide)
    · rw [eq_of_beq dot] at longer
      exact absurd longer (by decide)
  · rw [same] at longer
    exact absurd longer (by decide)

/-- A text that is a name, or ends in one behind a slash. -/
def EndsIn (text : List Char) (name : String) : Prop :=
  text = name.toList ∨ ∃ front, text = front ++ '/' :: name.toList

namespace EndsIn

variable {text rest : List Char} {name : String}

/-- Its last component is the name. -/
theorem split (ends : EndsIn text name) (whole : '/' ∉ name.toList) :
    ∃ front, Path.split text = front ++ [name.toList] := by
  have solid : ∀ c ∈ name.toList, (c == '/') = false :=
    fun c member => beq_eq_false_iff_ne.mpr fun same => whole (same ▸ member)
  rcases ends with rfl | ⟨front, rfl⟩
  · exact ⟨[], pieces_of_solid solid⟩
  · refine ⟨Path.split front, ?_⟩
    rw [Path.split, pieces_append front name.toList rfl, pieces_of_solid solid]
    rfl

/-- What stands in front of more than the name does not matter. -/
theorem tail {c : Char} (ends : EndsIn (c :: rest) name) (longer : c :: rest ≠ name.toList) :
    EndsIn rest name := by
  rcases ends with same | ⟨front, same⟩
  · exact absurd same longer
  · cases front with
    | nil => exact .inl (List.cons.inj same).2
    | cons c front => exact .inr ⟨front, (List.cons.inj same).2⟩

end EndsIn

/-- A path to which a name is joined ends in the name. -/
theorem Path.endsIn_join (directory : Path) (name : String) :
    EndsIn (directory.join name).text.toList name := by
  unfold Path.join
  split
  · rename_i ended
    rw [Bool.or_eq_true, decide_eq_true_iff] at ended
    rw [String.toList_append]
    rcases ended with empty | slash
    · rw [String.isEmpty_iff] at empty
      rw [empty]
      exact .inl rfl
    · obtain ⟨front, spelled⟩ := List.getLast?_eq_some_iff.mp slash
      rw [spelled, List.append_assoc]
      exact .inr ⟨front, rfl⟩
  · rw [String.toList_append, String.toList_append, List.append_assoc]
    exact .inr ⟨directory.text.toList, rfl⟩

namespace Path

variable {path : Path}

/-! ## Names -/

/-- No component holds a slash. -/
theorem slash_not_mem_split {cs component : List Char} (member : component ∈ split cs) :
    '/' ∉ component := by
  obtain ⟨-, -, -, -, -, solid⟩ := infix_of_mem_pieces (· == '/') cs
  exact fun inside => absurd (solid component member '/' inside) (by decide)

/-- What stands behind the start of a path. -/
theorem parts_eq (path : Path) : ∃ start body, path.parts =
    (start, (split body).reverse.dropWhile isTrivial) := ⟨_, _, rfl⟩

/-- **No name** that a path has holds a slash… -/
theorem slash_not_mem_name {name : List Char} (named : path.name? = some name) : '/' ∉ name := by
  obtain ⟨start, body, parts⟩ := path.parts_eq
  unfold name? at named
  rw [parts] at named
  split at named
  · exact absurd named nofun
  · rename_i last rest spelled
    dsimp only at spelled
    split at named
    · exact absurd named nofun
    · obtain rfl := Option.some.inj named
      have member : last ∈ (split body).reverse.dropWhile isTrivial := spelled ▸ List.mem_cons_self
      exact slash_not_mem_split (List.mem_reverse.mp ((List.dropWhile_sublist _).subset member))

end Path

/-- The stem of a name is a part of it. -/
theorem NameParts.stem_subset (name : List Char) : (NameParts.ofName name).stem ⊆ name := by
  unfold ofName
  dsimp only
  split
  · exact List.Subset.refl _
  · exact List.Subset.refl _
  · rename_i dot stem _ spelled
    intro c member
    have behind : c ∈ name.reverse.dropWhile (· != '.') :=
      spelled ▸ List.mem_cons_of_mem _ (List.mem_reverse.mp member)
    exact List.mem_reverse.mp ((List.dropWhile_sublist _).subset behind)

/-- A name with an extension is its two parts with a dot between them. -/
theorem NameParts.eq_of_extension {name extension : List Char}
    (ended : (NameParts.ofName name).extension = some extension) :
    name = (NameParts.ofName name).stem ++ '.' :: extension := by
  unfold ofName at ended ⊢
  dsimp only at ended ⊢
  split at ended
  · exact absurd ended nofun
  · exact absurd ended nofun
  · rename_i dot stem _ spelled
    obtain rfl := Option.some.inj ended
    have stops := List.head?_dropWhile_not (· != '.') name.reverse
    have whole := List.takeWhile_append_dropWhile (p := (· != '.')) (l := name.reverse)
    rw [spelled] at stops whole
    obtain rfl : dot = '.' := by simpa using stops
    calc
      name = name.reverse.reverse := (List.reverse_reverse name).symm
      _ = (name.reverse.takeWhile (· != '.') ++ '.' :: stem).reverse := by rw [whole]
      _ = _ := by
        rw [List.reverse_append, List.reverse_cons, List.append_assoc]
        rfl

namespace Path

variable {path : Path}

/-- …and neither does its stem. -/
theorem slash_not_mem_stem {stem : String} (named : path.stem? = some stem) : '/' ∉ stem.toList := by
  obtain ⟨name, found, rfl⟩ := Option.map_eq_some_iff.mp named
  rw [String.toList_ofList]
  exact fun inside => slash_not_mem_name found (NameParts.stem_subset name inside)

/-- The last component of a path to which a file name is joined. -/
theorem parts_join (directory : Path) {name : String} (isName : IsFileName name) :
    ∃ start rest, (directory.join name).parts = (start, name.toList :: rest) := by
  have ends := directory.endsIn_join name
  have last {body : List Char} (ends : EndsIn body name) :
      ∃ rest, (split body).reverse.dropWhile isTrivial = name.toList :: rest := by
    obtain ⟨front, cut⟩ := ends.split isName.whole
    refine ⟨front.reverse, ?_⟩
    rw [cut, List.reverse_concat, List.dropWhile_cons_of_neg (by rw [isName.named]; exact Bool.false_ne_true)]
  -- the start takes a slash or a dot, which no name is alone
  unfold parts
  split
  rename_i start body begins
  split at begins
  · rename_i rest spelled
    obtain ⟨rfl, rfl⟩ := Prod.mk.inj begins
    rw [spelled] at ends
    have longer : '/' :: rest ≠ name.toList := fun same => isName.whole (same ▸ List.mem_cons_self)
    exact ⟨_, (last (ends.tail longer)).imp fun _ => congrArg _⟩
  · rename_i spelled
    rw [spelled] at ends
    rcases ends with same | ⟨front, same⟩
    · have named := isName.named
      rw [← same] at named
      exact Bool.noConfusion named
    · have inside : '/' ∈ ['.'] := same ▸ List.mem_append_right front List.mem_cons_self
      exact absurd inside (by decide)
  · rename_i rest spelled
    obtain ⟨rfl, rfl⟩ := Prod.mk.inj begins
    rw [spelled] at ends
    have longer : '.' :: '/' :: rest ≠ name.toList :=
      fun same => isName.whole (same ▸ List.mem_cons_of_mem _ List.mem_cons_self)
    exact ⟨_, (last (ends.tail longer)).imp fun _ => congrArg _⟩
  · obtain ⟨rfl, rfl⟩ := Prod.mk.inj begins
    exact ⟨_, (last ends).imp fun _ => congrArg _⟩

/-- **The name** of a path to which a file name is joined. -/
theorem name?_join (directory : Path) {name : String} (isName : IsFileName name) :
    (directory.join name).name? = some name.toList := by
  obtain ⟨start, rest, parts⟩ := directory.parts_join isName
  unfold name?
  rw [parts]
  dsimp only
  rw [if_neg]
  exact fun same => isName.inner (eq_of_beq same)

end Path

/-! ## Endings -/

/-- The parts of a name with an ending. -/
theorem NameParts.ofName_append {stem extension : List Char} (nonempty : stem ≠ []) (noDot : '.' ∉ extension) :
    ofName (stem ++ '.' :: extension) = ⟨stem, some extension⟩ := by
  have solid : ∀ c ∈ extension.reverse, (c != '.') = true := fun c member =>
    bne_iff_ne.mpr fun same => noDot (same ▸ List.mem_reverse.mp member)
  have backwards : (stem ++ '.' :: extension).reverse = extension.reverse ++ '.' :: stem.reverse := by
    rw [List.reverse_append, List.reverse_cons, List.append_assoc, List.singleton_append]
  obtain ⟨last, others, reversed⟩ := List.exists_cons_of_ne_nil (List.reverse_ne_nil_iff.mpr nonempty)
  unfold ofName
  rw [backwards]
  dsimp only
  rw [List.dropWhile_append_of_pos solid, List.takeWhile_append_of_pos solid,
    List.dropWhile_cons_of_neg (by decide), List.takeWhile_cons_of_neg (by decide), List.append_nil,
    List.reverse_reverse, reversed]
  dsimp only
  rw [← reversed, List.reverse_reverse]

/-- A name that is an ending has none. -/
theorem NameParts.extension_ofName_dot {extension : List Char} (noDot : '.' ∉ extension) :
    (ofName ('.' :: extension)).extension = none := by
  have solid : ∀ c ∈ extension.reverse, (c != '.') = true := fun c member =>
    bne_iff_ne.mpr fun same => noDot (same ▸ List.mem_reverse.mp member)
  unfold ofName
  rw [List.reverse_cons]
  dsimp only
  rw [List.dropWhile_append_of_pos solid, List.dropWhile_cons_of_neg (by decide)]

namespace Path

/-- The name in front of the last dot of a file in a directory, and what stands behind it. -/
theorem stem?_join (directory : Path) {name : String} (isName : IsFileName name) :
    (directory.join name).stem? = some (String.ofList (NameParts.ofName name.toList).stem) := by
  rw [stem?, directory.name?_join isName]
  rfl

theorem extension?_join (directory : Path) {name : String} (isName : IsFileName name) :
    (directory.join name).extension? = (NameParts.ofName name.toList).extension.map String.ofList := by
  rw [extension?, directory.name?_join isName]
  rfl

/-- A file that has a name in front of its ending. -/
theorem parts_join_append (directory : Path) {stem ending extension : String} (isName : IsFileName (stem ++ ending))
    (spelled : ending = "." ++ extension) (noDot : '.' ∉ extension.toList) (nonempty : stem ≠ "") :
    (directory.join (stem ++ ending)).stem? = some stem ∧
      (directory.join (stem ++ ending)).extension? = some extension := by
  have whole : (stem ++ ending).toList = stem.toList ++ '.' :: extension.toList := by
    rw [spelled, String.toList_append, String.toList_append]
    rfl
  have some : stem.toList ≠ [] := fun empty => nonempty (String.toList_inj.mp empty)
  rw [directory.stem?_join isName, directory.extension?_join isName, whole, NameParts.ofName_append some noDot]
  exact ⟨congrArg _ String.ofList_toList, congrArg Option.some String.ofList_toList⟩

/-- A file that is called like an ending. -/
theorem extension?_join_ending (directory : Path) {ending extension : String} (isName : IsFileName ending)
    (spelled : ending = "." ++ extension) (noDot : '.' ∉ extension.toList) :
    (directory.join ending).extension? = none := by
  have whole : ending.toList = '.' :: extension.toList := by
    rw [spelled, String.toList_append]
    rfl
  rw [directory.extension?_join isName, whole, NameParts.extension_ofName_dot noDot]
  rfl

end Path

end JackToolchain.Disk

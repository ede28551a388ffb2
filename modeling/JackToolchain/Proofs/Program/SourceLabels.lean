import JackToolchain.Proofs.Hack.Linking
import JackToolchain.Proofs.Jack.ClassLimits

/-!
# Labels of compiled classes

Which labels the code of classes declares in the assembly.

## Main Definitions

* `groupLabels` — the labels of functions: the name of each, then its inner labels behind its name.
* `Class.groups` — the functions of a class with their inner labels.

## Main Statements

* `nodup_groupLabels` — the labels of differently named functions are different.
* `Class.sourceLabels_code` — the labels that the code of a class declares are those of its functions.

## Design Notes

A qualified name holds a dot and no dollar sign.  So what stands in front of the dollar sign of a label is
the function to which it belongs, and a label with a dot is not a generated one.
-/

namespace JackToolchain.Jack.Written

open Hack Vm

/-! ## Groups -/

/-- The labels of functions, given with their inner labels. -/
def groupLabels (groups : List (String × List String)) : List String :=
  groups.flatMap fun group => group.1 :: group.2.map (group.1 ++ "$" ++ ·)

/-- What stands in front of the dollar sign. -/
def functionPart (label : String) : List Char := label.toList.takeWhile (· != '$')

theorem functionPart_eq {name : String} (plain : '$' ∉ name.toList) :
    functionPart name = name.toList ∧
      ∀ label, functionPart (name ++ "$" ++ label) = name.toList := by
  refine ⟨?_, fun label => ?_⟩
  · exact List.takeWhile_eq_self_iff.mpr fun c member =>
      bne_iff_ne.mpr fun same => plain (same ▸ member)
  · unfold functionPart
    rw [String.toList_append, String.toList_append, List.append_assoc]
    exact (takeWhile_append_separator plain label.toList).1

/-- Every label of a function has its name in front. -/
theorem functionPart_of_mem {name label : String} {inner : List String} (plain : '$' ∉ name.toList)
    (member : label ∈ name :: inner.map (name ++ "$" ++ ·)) : functionPart label = name.toList := by
  obtain ⟨whole, front⟩ := functionPart_eq plain
  rcases List.mem_cons.mp member with rfl | inInner
  · exact whole
  · obtain ⟨other, -, rfl⟩ := List.mem_map.mp inInner
    exact front other

/-- **The labels of functions** with different names are different. -/
theorem nodup_groupLabels {groups : List (String × List String)}
    (names : (groups.map (·.1)).Nodup) (plain : ∀ group ∈ groups, '$' ∉ group.1.toList)
    (inner : ∀ group ∈ groups, group.2.Nodup) : (groupLabels groups).Nodup := by
  refine List.nodup_flatMap.mpr ⟨fun group member => ?_, ?_⟩
  · refine List.nodup_cons.mpr ⟨?_, (inner group member).map fun one other same => ?_⟩
    · intro inInner
      obtain ⟨label, -, same⟩ := List.mem_map.mp inInner
      refine plain group member ?_
      rw [← same, String.toList_append, String.toList_append]
      simp
    · exact String.append_right_inj _ |>.mp same
  · refine (List.pairwise_map.mp names).imp_of_mem fun {one other} inOne inOther different => ?_
    intro label inFirst inSecond
    refine different (String.toList_inj.mp ?_)
    rw [← functionPart_of_mem (plain one inOne) inFirst,
      functionPart_of_mem (plain other inOther) inSecond]

/-- Labels of functions whose names hold a dot hold one, too. -/
theorem dot_mem_groupLabels {groups : List (String × List String)}
    (dots : ∀ group ∈ groups, '.' ∈ group.1.toList) {label : String}
    (member : label ∈ groupLabels groups) : '.' ∈ label.toList := by
  obtain ⟨group, inGroups, inGroup⟩ := List.mem_flatMap.mp member
  rcases List.mem_cons.mp inGroup with rfl | inInner
  · exact dots group inGroups
  · obtain ⟨inner, -, rfl⟩ := List.mem_map.mp inInner
    rw [String.toList_append, String.toList_append]
    simp [dots group inGroups]

/-! ## Code -/

/-- The labels of code without headers belong to the function in which it stands. -/
theorem sourceLabels_body (unit function : String) {body : List Instruction}
    (headless : ∀ i ∈ body, i.isFunction = false) (rest : List Instruction) :
    sourceLabels unit function (body ++ rest) =
      (labels body).map (scopedLabel unit function) ++ sourceLabels unit function rest := by
  induction body with
  | nil => rfl
  | cons instruction body ih =>
      obtain ⟨here, others⟩ := List.forall_mem_cons.mp headless
      cases instruction with
      | function => exact absurd here Bool.noConfusion
      | label name => exact congrArg (_ :: ·) (ih others)
      | push | pop | operate | goto | ifGoto | call | return_ => exact ih others

/-- The functions of subroutines with their inner labels. -/
def groupsOf (library : Library) (className : String) (fields : Nat)
    (subroutines : List Jack.Subroutine) : List (String × List String) :=
  subroutines.map fun s => (qualifiedName className s.name, labels (bodyCode library fields s))

theorem toList_qualifiedName (className name : String) :
    (qualifiedName className name).toList = className.toList ++ ('.' :: name.toList) := by
  show (className ++ "." ++ name).toList = _
  rw [String.toList_append, String.toList_append, List.append_assoc]
  rfl

theorem dot_mem_qualifiedName (className name : String) :
    '.' ∈ (qualifiedName className name).toList := by
  rw [toList_qualifiedName]
  simp

/-- A qualified name stands in front of the labels of its function. -/
theorem scopedLabel_qualifiedName (unit className name label : String) :
    scopedLabel unit (qualifiedName className name) label =
      qualifiedName className name ++ "$" ++ label := by
  have named : qualifiedName className name ≠ "" := by
    intro empty
    have dot := dot_mem_qualifiedName className name
    rw [empty] at dot
    exact absurd dot (by decide)
  rw [scopedLabel, if_neg named]

/-- **The labels of subroutines** are those of their functions. -/
theorem sourceLabels_subroutines (library : Library) (unit function className : String) (fields : Nat)
    {subroutines : List Jack.Subroutine}
    (headless : ∀ s ∈ subroutines, Headless (bodyCode library fields s)) :
    sourceLabels unit function (subroutines.flatMap (·.code library className fields)) =
      groupLabels (groupsOf library className fields subroutines) := by
  induction subroutines generalizing function with
  | nil => rfl
  | cons subroutine rest ih =>
      obtain ⟨here, others⟩ := List.forall_mem_cons.mp headless
      have qualified : scopedLabel unit (qualifiedName className subroutine.name) =
          (qualifiedName className subroutine.name ++ "$" ++ ·) := by
        funext label
        exact scopedLabel_qualifiedName unit className subroutine.name label
      rw [List.flatMap_cons, code_eq_bodyCode, List.cons_append, sourceLabels,
        sourceLabels_body _ _ here, ih _ others, qualified]
      rfl

/-! ## Classes -/

/-- The subroutines of a resolved class have the names of the written ones. -/
theorem names_resolvedSubroutines (className : String) (ofClass : Symbol.Table) (first : Nat)
    (written : List Subroutine) :
    (resolvedSubroutines className ofClass first written).map (·.name) = written.map (·.name) := by
  induction written generalizing first with
  | nil => rfl
  | cons subroutine rest ih => exact congrArg (_ :: ·) (ih _)

namespace Class

variable (library : Library) (first : Nat) (cls : Class)

/-- The functions of a class with their inner labels. -/
def groups : List (String × List String) :=
  groupsOf library cls.name (counted cls.fieldCount) (cls.resolved first).subroutines

/-- **The labels of a class** are those of its functions. -/
theorem sourceLabels_code (unit : String) :
    sourceLabels unit "" ((cls.resolved first).code library) = groupLabels (cls.groups library first) :=
  sourceLabels_subroutines library unit "" cls.name _ (cls.headless_bodies library _ first)

/-- The functions have qualified names. -/
theorem names_groups : (cls.groups library first).map (·.1) = cls.qualifiedNames := by
  have names := names_resolvedSubroutines cls.name cls.table first cls.subroutines
  have qualified := congrArg (List.map (qualifiedName cls.name)) names
  rw [List.map_map, List.map_map] at qualified
  rw [groups, groupsOf, List.map_map]
  exact qualified

variable {library first cls} {group : String × List String}

theorem qualified_of_mem (member : group ∈ cls.groups library first) :
    ∃ subroutine ∈ cls.subroutines, group.1 = qualifiedName cls.name subroutine.name := by
  have named : group.1 ∈ cls.qualifiedNames := by
    rw [← names_groups library first]
    exact List.mem_map_of_mem member
  obtain ⟨subroutine, inClass, same⟩ := List.mem_map.mp named
  exact ⟨subroutine, inClass, same.symm⟩

theorem dot_mem_of_group (member : group ∈ cls.groups library first) : '.' ∈ group.1.toList := by
  obtain ⟨subroutine, -, same⟩ := qualified_of_mem member
  rw [same]
  exact dot_mem_qualifiedName _ _

/-- No name in a text holds a dollar sign. -/
theorem plain_of_group (proper : ∀ token ∈ cls.tokens, token.IsProper)
    (member : group ∈ cls.groups library first) : '$' ∉ group.1.toList := by
  obtain ⟨subroutine, inClass, same⟩ := qualified_of_mem member
  have plain {name : String} (isName : IsName name) : '$' ∉ name.toList :=
    fun inside => absurd (isName.parts _ inside) (by decide)
  rw [same, toList_qualifiedName]
  simp [plain (isName_name proper), plain (Subroutine.isName_name inClass proper)]

/-- The inner labels of a function are different. -/
theorem nodup_of_group (member : group ∈ cls.groups library first) : group.2.Nodup := by
  obtain ⟨s, inClass, rfl⟩ := List.mem_map.mp member
  obtain ⟨subroutine, -, number, rfl⟩ := mem_resolvedSubroutines inClass
  dsimp only
  rw [labels_bodyCode]
  exact (numbered_statementsCode library _ cls.name subroutine.body number).nodup

end Class

end JackToolchain.Jack.Written

import JackToolchain.Proofs.Hack.LabelAccounts
import JackToolchain.Proofs.Program.Processing

/-!
# Distinct labels

No label is declared twice in the assembly of units.

## Main Definitions

* `functionNames` — the functions whose headers stand in a code.
* `LabelsPlaced` — what units must keep to: functions have different names that hold a dot and no dollar
  sign, and every label stands in a function, only once.
* `Lowering.run` — units lowered one after the other, behind what sets up the stack if it is wanted.

## Main Statements

* `LabelsPlaced.sourceLabels_eq` — the labels of units that keep to this are those of their functions.
* `labelsPlaced_of_classes` — the code of classes keeps to it, if their qualified names are different.
* `labels_never_repeat` — label lines are different and none declares a predefined symbol; what is
  referred to and neither predefined nor named by an instruction is declared exactly once.

## Design Notes

Units may be refused in the middle, and lowering goes on with the next unit.  So the labels of the source
that are declared are in general only some of those of the units, in order.
-/

namespace JackToolchain

open Hack Jack Vm

/-! ## Functions of a code -/

/-- The functions whose headers stand in a code. -/
def functionNames (code : List Instruction) : List String :=
  code.filterMap fun
    | .function name _ => some name
    | _ => none

/-- The functions of a code with the labels in their bodies. -/
def labelGroups (code : List Instruction) : List (String × List String) :=
  (functionNames code).zip ((bodies code).map labels)

theorem length_bodies (code : List Instruction) :
    (bodies code).length = (functionNames code).length := by
  induction code with
  | nil => rfl
  | cons instruction rest ih =>
      cases instruction with
      | function => exact congrArg (· + 1) ih
      | push | pop | operate | label | goto | ifGoto | call | return_ => exact ih

theorem names_labelGroups (code : List Instruction) :
    (labelGroups code).map (·.1) = functionNames code := by
  refine List.map_fst_zip ?_
  rw [List.length_map, length_bodies]

/-- The labels of a code are those in front of its first header, and those of its functions. -/
theorem sourceLabels_eq (unit function : String) {code : List Instruction}
    (named : ∀ name ∈ functionNames code, name ≠ "") :
    sourceLabels unit function code =
      (labels (code.takeWhile (!·.isFunction))).map (scopedLabel unit function) ++
        Written.groupLabels (labelGroups code) := by
  induction code generalizing function with
  | nil => rfl
  | cons instruction rest ih =>
      cases instruction with
      | function name localCount =>
          obtain ⟨here, others⟩ := List.forall_mem_cons.mp named
          have qualified : scopedLabel unit name = (name ++ "$" ++ ·) := by
            funext label
            rw [scopedLabel, if_neg here]
          rw [sourceLabels, ih name others, qualified]
          rfl
      | label name => exact congrArg (_ :: ·) (ih function named)
      | push | pop | operate | goto | ifGoto | call | return_ => exact ih function named

/-! ## Placed labels -/

/-- **Placed labels.**  The functions of units have different names that hold a dot and no dollar sign; no
label stands in front of the first function of a unit, nor twice in a function. -/
structure LabelsPlaced (units : List CompiledUnit) : Prop where
  names : (units.flatMap fun unit => functionNames unit.code).Nodup
  dots : ∀ unit ∈ units, ∀ name ∈ functionNames unit.code, '.' ∈ name.toList
  plain : ∀ unit ∈ units, ∀ name ∈ functionNames unit.code, '$' ∉ name.toList
  headed : ∀ unit ∈ units, labels (unit.code.takeWhile (!·.isFunction)) = []
  inner : ∀ unit ∈ units, ∀ body ∈ bodies unit.code, (labels body).Nodup

/-- **The labels of units** are those of their functions. -/
theorem LabelsPlaced.sourceLabels_eq {units : List CompiledUnit} (placed : LabelsPlaced units) :
    (units.flatMap fun unit => sourceLabels unit.name "" unit.code) =
      Written.groupLabels (units.flatMap fun unit => labelGroups unit.code) := by
  rw [Written.groupLabels, List.flatMap_assoc]
  refine List.flatMap_congr fun unit member => ?_
  have named : ∀ name ∈ functionNames unit.code, name ≠ "" := by
    rintro name inCode rfl
    exact absurd (placed.dots unit member "" inCode) (by decide)
  rw [JackToolchain.sourceLabels_eq _ _ named, placed.headed unit member]
  rfl

/-- Their functions keep labels apart. -/
theorem LabelsPlaced.areFunctions {units : List CompiledUnit} (placed : LabelsPlaced units) :
    AreFunctions (units.flatMap fun unit => labelGroups unit.code) := by
  have split {group : String × List String}
      (member : group ∈ units.flatMap fun unit => labelGroups unit.code) :
      ∃ unit ∈ units, group.1 ∈ functionNames unit.code ∧
        group.2 ∈ (bodies unit.code).map labels := by
    obtain ⟨unit, inUnits, inGroups⟩ := List.mem_flatMap.mp member
    exact ⟨unit, inUnits, List.of_mem_zip inGroups⟩
  refine ⟨fun group member => ?_, fun group member => ?_, fun group member => ?_⟩
  · obtain ⟨unit, inUnits, inNames, -⟩ := split member
    exact placed.dots unit inUnits _ inNames
  · obtain ⟨unit, inUnits, inNames, -⟩ := split member
    exact placed.plain unit inUnits _ inNames
  · obtain ⟨unit, inUnits, -, inBodies⟩ := split member
    obtain ⟨body, isBody, same⟩ := List.mem_map.mp inBodies
    exact same ▸ placed.inner unit inUnits body isBody

/-- **The labels of units** are different, and each of them holds a dot. -/
theorem LabelsPlaced.nodup_sourceLabels {units : List CompiledUnit} (placed : LabelsPlaced units) :
    (units.flatMap fun unit => sourceLabels unit.name "" unit.code).Nodup ∧
      ∀ name ∈ units.flatMap fun unit => sourceLabels unit.name "" unit.code, '.' ∈ name.toList := by
  have functions := placed.areFunctions
  have names : ((units.flatMap fun unit => labelGroups unit.code).map (·.1)).Nodup := by
    rw [List.map_flatMap]
    simp only [names_labelGroups]
    exact placed.names
  rw [placed.sourceLabels_eq]
  exact ⟨Written.nodup_groupLabels names functions.plain functions.inner,
    fun name => Written.dot_mem_groupLabels functions.dots⟩

/-! ## Classes -/

/-- There are no functions in code without headers. -/
theorem functionNames_append {body : List Instruction} (rest : List Instruction)
    (headless : ∀ i ∈ body, i.isFunction = false) :
    functionNames (body ++ rest) = functionNames rest := by
  have none : functionNames body = [] := by
    refine List.filterMap_eq_nil_iff.mpr fun instruction member => ?_
    cases instruction with
    | function => exact Bool.noConfusion (headless _ member)
    | push | pop | operate | label | goto | ifGoto | call | return_ => rfl
  unfold functionNames at none ⊢
  rw [List.filterMap_append, none, List.nil_append]

/-- The functions of subroutines have their qualified names. -/
theorem functionNames_subroutines (library : Library) (className : String) (fields : Nat)
    {subroutines : List Jack.Subroutine}
    (headless : ∀ s ∈ subroutines, Written.Headless (Written.bodyCode library fields s)) :
    functionNames (subroutines.flatMap (·.code library className fields)) =
      subroutines.map fun s => qualifiedName className s.name := by
  induction subroutines with
  | nil => rfl
  | cons subroutine rest ih =>
      obtain ⟨here, others⟩ := List.forall_mem_cons.mp headless
      rw [List.flatMap_cons, Written.code_eq_bodyCode, List.cons_append, List.map_cons, ← ih others]
      exact congrArg (_ :: ·) (functionNames_append _ here)

namespace Jack.Written.Class

variable (library : Library) (first : Nat) (cls : Class)

/-- **The functions of a class** are its subroutines… -/
theorem functionNames_code :
    functionNames ((cls.resolved first).code library) = cls.qualifiedNames := by
  have names := names_resolvedSubroutines cls.name cls.table first cls.subroutines
  have qualified := congrArg (List.map (qualifiedName cls.name)) names
  rw [List.map_map, List.map_map] at qualified
  exact (functionNames_subroutines library cls.name _ (cls.headless_bodies library _ first)).trans
    qualified

/-- …and no label stands twice in a body. -/
theorem nodup_labels_of_body {body : List Instruction}
    (member : body ∈ bodies ((cls.resolved first).code library)) : (labels body).Nodup := by
  rw [cls.bodies_code library first] at member
  obtain ⟨s, inClass, rfl⟩ := List.mem_map.mp member
  have group : (qualifiedName cls.name s.name,
      labels (bodyCode library (cls.resolved first).fields s)) ∈
      cls.groups library first := List.mem_map_of_mem inClass
  exact nodup_of_group group

/-- Nothing stands in front of the first function of a class. -/
theorem takeWhile_code :
    ((cls.resolved first).code library).takeWhile (!·.isFunction) = [] := by
  unfold Jack.Class.code
  cases (cls.resolved first).subroutines <;> rfl

end Jack.Written.Class

/-! ## Compiled units -/

/-- A unit that was compiled from a class, which is written in one of the sources. -/
def IsCompiledFrom (library : Library) (sources : List SourceUnit) (unit : CompiledUnit)
    (cls : Written.Class) : Prop :=
  ∃ source ∈ sources, source.name = unit.name ∧ source.Spells cls ∧ IsCodeOf library unit cls

/-- **The units that compile** hold classes, also if others do not. -/
theorem compileUnits_of_jack {sources : List SourceUnit}
    (jack : ∀ source ∈ sources, source.kind = .jack) (session : Session) :
    ∃ classes, List.Forall₂ (IsCompiledFrom session.library sources)
      (compileUnits session sources).1 classes := by
  refine exists_partners fun unit member => ?_
  obtain ⟨source, inSources, name, before, library, compiles⟩ := compiled_of_mem_units member
  obtain ⟨cls, holds, same⟩ := SourceUnit.holds_of_compile (jack source inSources) compiles
  rw [library] at same
  exact ⟨cls, source, inSources, name, holds.toSpells, before.nextLabel, same⟩

/-- **Classes keep to it**: compiled units with different qualified names have placed labels. -/
theorem labelsPlaced_of_classes {library : Library} {sources : List SourceUnit}
    {units : List CompiledUnit} {classes : List Written.Class}
    (compiled : List.Forall₂ (IsCompiledFrom library sources) units classes)
    (distinct : (classes.flatMap (·.qualifiedNames)).Nodup) : LabelsPlaced units := by
  have classOf (unit : CompiledUnit) (member : unit ∈ units) : ∃ cls : Written.Class, ∃ first,
      (∀ token ∈ cls.tokens, token.IsProper) ∧ unit.code = (cls.resolved first).code library := by
    obtain ⟨cls, -, source, -, -, ⟨-, tokens, read, spelled⟩, first, code⟩ :=
      exists_partner compiled member
    exact ⟨cls, first, isProper_of_spelled read spelled, code⟩
  have groupOf (unit : CompiledUnit) (member : unit ∈ units) (name : String)
      (inCode : name ∈ functionNames unit.code) : '.' ∈ name.toList ∧ '$' ∉ name.toList := by
    obtain ⟨cls, first, proper, code⟩ := classOf unit member
    rw [code, cls.functionNames_code, ← cls.names_groups library first] at inCode
    obtain ⟨group, inGroups, rfl⟩ := List.mem_map.mp inCode
    exact ⟨Written.Class.dot_mem_of_group inGroups, Written.Class.plain_of_group proper inGroups⟩
  refine ⟨?_, fun unit member name inCode => (groupOf unit member name inCode).1,
    fun unit member name inCode => (groupOf unit member name inCode).2, fun unit member => ?_,
    fun unit member body inCode => ?_⟩
  -- The functions of the code are the subroutines of the classes, in the same order.
  · suffices names : (units.flatMap fun unit => functionNames unit.code) =
        classes.flatMap (·.qualifiedNames) by rwa [names]
    clear classOf groupOf distinct
    induction compiled with
    | nil => rfl
    | @cons unit cls _ _ here _ ih =>
        obtain ⟨source, -, -, -, first, code⟩ := here
        rw [List.flatMap_cons, List.flatMap_cons, ih, code, cls.functionNames_code]
  · obtain ⟨cls, first, -, code⟩ := classOf unit member
    rw [code, cls.takeWhile_code]
    rfl
  · obtain ⟨cls, first, -, code⟩ := classOf unit member
    exact cls.nodup_labels_of_body library first (code ▸ inCode)

/-! ## Runs -/

/-- What sets up the stack at an address and calls a function, if it is wanted. -/
def Hack.Lowering.start (annotate : Bool) : Option (Nat × String) → Lowering
  | none => { annotate }
  | some (base, entry) => ({ annotate } : Lowering).bootstrap base entry

/-- Units lowered one after the other. -/
def Hack.Lowering.run (annotate : Bool) (setUp : Option (Nat × String)) (units : List CompiledUnit) :
    Lowering :=
  (lowerUnits (Lowering.start annotate setUp) units).1

/-- A symbol to which lines may refer without its being generated for that: it is predefined, it is the
function that is called at first, or an instruction names it. -/
def IsForeign (setUp : Option (Nat × String)) (units : List CompiledUnit) (name : String) : Prop :=
  IsPredefined name ∨ (∃ base, setUp = some (base, name)) ∨
    ∃ unit ∈ units, ∃ instruction ∈ unit.code, NamedBy unit.name instruction name

/-- **Accounts of a run.** -/
theorem run_accounts (annotate : Bool) (setUp : Option (Nat × String)) (units : List CompiledUnit) :
    ∃ declared, declared.Sublist (units.flatMap fun unit => sourceLabels unit.name "" unit.code) ∧
      (Lowering.run annotate setUp units).Accounts (IsForeign setUp units) declared := by
  have predefined (name : String) (known : IsPredefined name) : IsForeign setUp units name := .inl known
  have begun : (Lowering.start annotate setUp).Accounts (IsForeign setUp units) [] := by
    cases setUp with
    | none => exact ⟨.nil, [], .nil, List.forall_mem_nil _⟩
    | some call =>
        exact Lowering.accounts_bootstrap annotate call.1 call.2 predefined (.inr (.inl ⟨_, rfl⟩))
  obtain ⟨declared, sublist, accounts⟩ := lowerUnits_accounts begun predefined
    fun unit inUnits instruction inCode name named =>
      .inr (.inr ⟨unit, inUnits, instruction, inCode, named⟩)
  exact ⟨declared, sublist, accounts⟩

/-- The labels of a run of units with placed labels are different, and none is predefined. -/
theorem declarations_run {units : List CompiledUnit} (placed : LabelsPlaced units) (annotate : Bool)
    (setUp : Option (Nat × String)) :
    (declarations (Lowering.run annotate setUp units).lines.toList).Nodup ∧
      ∀ name ∈ declarations (Lowering.run annotate setUp units).lines.toList,
        ¬ IsPredefined name := by
  obtain ⟨declared, sublist, accounts⟩ := run_accounts annotate setUp units
  obtain ⟨nodup, dots⟩ := placed.nodup_sourceLabels
  obtain ⟨different, fresh⟩ := fresh_of_perm accounts.labels (nodup.sublist sublist)
    fun name member => dots name (sublist.subset member)
  refine ⟨different, fun name member known => ?_⟩
  rw [isPredefined_iff, fresh name member] at known
  exact Bool.false_ne_true known

/-- **No label is ever declared twice.**  In the assembly of units with placed labels, whether or not the
stack is set up in front of them and whether or not they are lowered to their ends, the label lines are
different and none declares a predefined symbol.  Whatever is referred to is foreign, or it is the label
of a comparison or a call and then declared exactly once.

Labels are placed in the code of classes that share a session, whatever other classes were refused between
them, if their qualified subroutine names are different. -/
theorem labels_never_repeat :
    (∀ (annotate : Bool) (setUp : Option (Nat × String)) (units : List CompiledUnit),
      LabelsPlaced units →
      let lowering := Lowering.run annotate setUp units
      lowering.labelLines.Nodup ∧
        (∀ name, IsPredefined name → (Line.label name).text ∉ lowering.labelLines) ∧
        ∃ others, (references lowering.lines.toList).Perm
            (others ++ generated lowering.comparisons lowering.calls) ∧
          (∀ name ∈ others, IsForeign setUp units name) ∧
          ∀ name ∈ generated lowering.comparisons lowering.calls,
            lowering.labelLines.count (Line.label name).text = 1) ∧
    ∀ (session : Session) (sources : List SourceUnit), (∀ source ∈ sources, source.kind = .jack) →
      ∃ classes, List.Forall₂ (IsCompiledFrom session.library sources)
          (compileUnits session sources).1 classes ∧
        ((classes.flatMap (·.qualifiedNames)).Nodup → LabelsPlaced (compileUnits session sources).1) := by
  constructor
  · intro annotate setUp units placed lowering
    obtain ⟨declared, -, labels, references⟩ := run_accounts annotate setUp units
    obtain ⟨nodup, undefined⟩ := declarations_run placed annotate setUp
    obtain ⟨others, perm, foreign⟩ := references
    have lines : lowering.labelLines.Nodup := by
      rw [labelLines_eq]
      exact nodup.map label_text_injective
    refine ⟨lines, ?_, others, perm, foreign, ?_⟩
    · intro name known member
      rw [labelLines_eq] at member
      exact undefined name ((List.mem_map_of_injective label_text_injective).mp member) known
    · intro name inGenerated
      refine List.count_eq_one_of_mem lines ?_
      rw [labelLines_eq]
      exact List.mem_map_of_mem (labels.mem_iff.mpr (List.mem_append_right declared inGenerated))
  · intro session sources jack
    obtain ⟨classes, compiled⟩ := compileUnits_of_jack jack session
    exact ⟨classes, compiled, labelsPlaced_of_classes compiled⟩

/-! ## A unit with a comparison -/

/-- A class whose function compares. -/
private def comparing : Written.Class where
  name := "A"
  shared := []
  subroutines := [{
    kind := .function
    returns := some .boolean
    name := "f"
    parameters := [⟨.int, "a"⟩]
    locals := []
    body := [.leave (some (.chain (.«variable» "a") [(.lt, .integer 1)]))] }]

/-- Its text. -/
private def comparingSource : SourceUnit :=
  ⟨"A", .jack, "class A \x7b function boolean f(int a) \x7b return a < 1; \x7d \x7d"⟩

theorem comparing_labels_never_repeat :
    let units := (compileUnits { library := {} } [comparingSource]).1
    LabelsPlaced units ∧ (Lowering.run true (some (256, "A.f")) units).labelLines.Nodup ∧
      (Lowering.run true (some (256, "A.f")) units).labelLines =
        ["(RET_ADDRESS0)", "(A.f)", "(CMP_FALSE0)", "(CMP_END0)"] := by
  have jack : ∀ source ∈ [comparingSource], source.kind = .jack :=
    List.forall_mem_singleton.mpr rfl
  obtain ⟨classes, compiled, placed⟩ := labels_never_repeat.2 { library := {} } _ jack
  have read : tokenize comparingSource.text = .ok (comparing.tokens.map (⟨·, 1⟩)) :=
    (tokenize_ofList _).trans rfl
  have units : (compileUnits { library := {} } [comparingSource]).1 =
      [⟨"A", .jack, [.function "A.f" 0, .push .argument 0, .push .constant 1, .operate .lt,
        .return_]⟩] :=
    congrArg Prod.fst (compileUnits_cons_of_ok ((SourceUnit.compile_of_tokens read).trans rfl) rfl)
  have single : classes = [comparing] := by
    rw [units] at compiled
    obtain _ | ⟨⟨source, inSources, -, spells, -⟩, none⟩ := compiled
    obtain _ | _ := none
    obtain rfl := List.mem_singleton.mp inSources
    exact congrArg (fun cls => [cls]) (SourceUnit.spells_unique spells ⟨rfl, _, read, rfl⟩)
  have holds := placed (by rw [single]; decide)
  refine ⟨holds, (labels_never_repeat.1 true (some (256, "A.f")) _ holds).1, ?_⟩
  rw [units]
  rfl

end JackToolchain

import JackToolchain.Program
import JackToolchain.Proofs.Jack.LabelNumbers
import JackToolchain.Proofs.Jack.UniqueReading
import JackToolchain.Proofs.Program.SourceLabels
import JackToolchain.Proofs.Program.Stages
import Mathlib.Data.List.Forall2

/-!
# Processing programs

The back end never refuses what the front end produced.

## Main Definitions

* `SourceUnit.Holds` — the class that is written in a source unit.
* `Program.assembly` — the assembly of a program.

## Main Statements

* `compiled_of_mem_units` — every compiled unit is the code of a source.
* `compiles_iff_holds` — the units of a program all compile exactly if each of them holds a class.
* `lowered_of_holds` — units that hold modest classes are lowered without a failure, and the labels of
  their assembly are different.
* `processing_succeeds` — the program is assembled, if its assembly is not too long.
-/

namespace JackToolchain

open Hack Jack Vm

/-! ## Compiled units -/

/-- Compiling does not change the library. -/
theorem SourceUnit.library_compile (unit : SourceUnit) (session : Session) :
    (unit.compile session).2.library = session.library := by
  unfold SourceUnit.compile
  split
  · exact session.library_compile unit.text
  · rfl

/-- **Every compiled unit** is the code of a source, in a session with the same library. -/
theorem compiled_of_mem_units {sources : List SourceUnit} {session : Session} {unit : CompiledUnit}
    (member : unit ∈ (compileUnits session sources).1) :
    ∃ source ∈ sources, source.name = unit.name ∧ ∃ before : Session,
      before.library = session.library ∧ (source.compile before).1 = .ok unit.code := by
  induction sources generalizing session with
  | nil => exact absurd member List.not_mem_nil
  | cons source rest ih =>
      have behind (inRest : unit ∈ (compileUnits (source.compile session).2 rest).1) :
          ∃ other ∈ source :: rest, other.name = unit.name ∧ ∃ before : Session,
            before.library = session.library ∧ (other.compile before).1 = .ok unit.code := by
        obtain ⟨other, inSources, name, before, library, compiled⟩ := ih inRest
        -- the session of the other units is the one behind this unit
        rw [source.library_compile] at library
        exact ⟨other, List.mem_cons_of_mem _ inSources, name, before, library, compiled⟩
      rw [compileUnits] at member
      dsimp only at member
      cases compiled : (source.compile session).1 with
      | error error =>
          rw [compiled] at member
          exact behind member
      | ok code =>
          rw [compiled] at member
          rcases List.mem_cons.mp member with rfl | inRest
          · exact ⟨source, List.mem_cons_self, rfl, session, rfl, compiled⟩
          · exact behind inRest

/-! ## Classes in units -/

/-- **The class in a unit.**  Its tokens are those of the text. -/
structure SourceUnit.Spells (unit : SourceUnit) (cls : Written.Class) : Prop where
  kind : unit.kind = .jack
  spelled : ∃ tokens, tokenize unit.text = .ok tokens ∧ tokens.map (·.token) = cls.tokens

/-- **A class that can be compiled**: its local variables are all read, names are declared, and string
constants are within the limits. -/
structure SourceUnit.Holds (unit : SourceUnit) (cls : Written.Class) : Prop extends unit.Spells cls where
  readsOn : cls.ReadsOn
  declared : cls.Declared
  withinLimits : cls.WithinLimits

/-- There is at most one class in a unit. -/
theorem SourceUnit.spells_unique : Relator.RightUnique SourceUnit.Spells := by
  intro unit cls other spells spellsToo
  obtain ⟨tokens, read, spelled⟩ := spells.spelled
  obtain ⟨others, readToo, spelledToo⟩ := spellsToo.spelled
  obtain rfl : tokens = others := Except.ok.inj (read.symm.trans readToo)
  exact Written.Class.tokens_injective (spelled.symm.trans spelledToo)

/-- The tokens of the class in a unit are those of a text. -/
theorem SourceUnit.Holds.proper {unit : SourceUnit} {cls : Written.Class} (holds : unit.Holds cls) :
    ∀ token ∈ cls.tokens, token.IsProper := by
  obtain ⟨tokens, read, spelled⟩ := holds.spelled
  exact isProper_of_spelled read spelled

/-- What a unit that holds a class is compiled to. -/
theorem SourceUnit.Holds.compile {unit : SourceUnit} {cls : Written.Class} (holds : unit.Holds cls)
    (session : Session) : ∃ after : Session, after.library = session.library ∧
      unit.compile session =
        (.ok ((cls.resolved session.nextLabel).code session.library), after) := by
  obtain ⟨tokens, read, spelled⟩ := holds.spelled
  obtain ⟨next, compiles⟩ := Written.compiles_of_derivation session spelled holds.proper
    holds.readsOn holds.declared holds.withinLimits
  refine ⟨{ session with nextLabel := next }, rfl, ?_⟩
  rw [SourceUnit.compile, holds.kind]
  dsimp only
  rw [Session.compile, read]
  dsimp only
  rw [compiles]
  rfl

/-- The code of a class, with its branching statements numbered from somewhere on. -/
def IsCodeOf (library : Library) (unit : CompiledUnit) (cls : Written.Class) : Prop :=
  ∃ first, unit.code = (cls.resolved first).code library

/-- **Units that hold classes compile**, to the code of these classes under their own names. -/
theorem compileUnits_of_holds {units : List SourceUnit} {classes : List Written.Class}
    (held : List.Forall₂ SourceUnit.Holds units classes) (session : Session) :
    ∃ compiled, compileUnits session units = (compiled, []) ∧
      List.Forall₂ (IsCodeOf session.library) compiled classes ∧
      compiled.map (·.name) = units.map (·.name) := by
  induction held generalizing session with
  | nil => exact ⟨[], rfl, .nil, rfl⟩
  | @cons unit cls units classes holds _ ih =>
      obtain ⟨after, library, compiles⟩ := holds.compile session
      obtain ⟨compiled, compilesRest, codes, names⟩ := ih after
      rw [library] at codes
      have code : IsCodeOf session.library ⟨unit.name, unit.kind,
          (cls.resolved session.nextLabel).code session.library⟩ cls := ⟨_, rfl⟩
      refine ⟨_, ?_, .cons code codes, congrArg (unit.name :: ·) names⟩
      rw [compileUnits, compiles]
      dsimp only
      rw [compilesRest]

/-- **A unit that compiles holds a class**, and is compiled to its code. -/
theorem SourceUnit.holds_of_compile {unit : SourceUnit} {session : Session}
    {code : List Instruction} (jack : unit.kind = .jack)
    (compiles : (unit.compile session).1 = .ok code) :
    ∃ cls, unit.Holds cls ∧ code = (cls.resolved session.nextLabel).code session.library := by
  rw [SourceUnit.compile, jack] at compiles
  dsimp only at compiles
  cases accepted : (session.compile unit.text).1 with
  | error error =>
      rw [accepted] at compiles
      exact absurd compiles (by rintro ⟨⟩)
  | ok compiled =>
      rw [accepted] at compiles
      obtain ⟨tokens, cls, read, spelled, readsOn, admissible, rfl, -⟩ :=
        Written.compile_to_resolved accepted
      have proper := isProper_of_spelled read spelled
      obtain ⟨declared, limits⟩ := (Written.admissible_iff proper).mp admissible
      exact ⟨cls, ⟨⟨jack, tokens, read, spelled⟩, readsOn, declared, limits⟩,
        (Except.ok.inj compiles).symm⟩

/-- **Units compile exactly if they hold classes.** -/
theorem compiles_iff_holds {units : List SourceUnit} (jack : ∀ unit ∈ units, unit.kind = .jack)
    (session : Session) :
    (compileUnits session units).2 = [] ↔ ∃ classes, List.Forall₂ SourceUnit.Holds units classes := by
  constructor
  · intro clean
    induction units generalizing session with
    | nil => exact ⟨[], .nil⟩
    | cons unit rest ih =>
        obtain ⟨here, others⟩ := List.forall_mem_cons.mp jack
        rw [compileUnits] at clean
        dsimp only at clean
        split at clean
        · rename_i code compiles
          obtain ⟨cls, holds, -⟩ := SourceUnit.holds_of_compile here compiles
          obtain ⟨classes, held⟩ := ih others _ clean
          exact ⟨cls :: classes, .cons holds held⟩
        · exact absurd clean (List.cons_ne_nil _ _)
  · rintro ⟨classes, held⟩
    obtain ⟨compiled, compiles, -⟩ := compileUnits_of_holds held session
    rw [compiles]

/-- The classes in units that compile can be compiled. -/
theorem holds_of_compiles {units : List SourceUnit} {classes : List Written.Class}
    (written : List.Forall₂ SourceUnit.Spells units classes) {session : Session}
    (clean : (compileUnits session units).2 = []) : List.Forall₂ SourceUnit.Holds units classes := by
  have jack : ∀ unit ∈ units, unit.kind = .jack := by
    intro unit member
    obtain ⟨cls, -, spells⟩ := exists_partner written member
    exact spells.kind
  obtain ⟨others, held⟩ := (compiles_iff_holds jack session).mp clean
  have spelled : List.Forall₂ SourceUnit.Spells units others := held.imp fun _ _ => (·.toSpells)
  obtain rfl := List.right_unique_forall₂' SourceUnit.spells_unique written spelled
  exact held

/-! ## Labels -/

/-- **Functions of a program** with their inner labels, as they keep the labels of a program apart. -/
structure AreFunctions (groups : List (String × List String)) : Prop where
  dots : ∀ group ∈ groups, '.' ∈ group.1.toList
  plain : ∀ group ∈ groups, '$' ∉ group.1.toList
  inner : ∀ group ∈ groups, group.2.Nodup

/-- **The labels of units** are those of the functions of their classes. -/
theorem sourceLabels_units {library : Library} {units : List CompiledUnit}
    {classes : List Written.Class} (codes : List.Forall₂ (IsCodeOf library) units classes)
    (proper : ∀ cls ∈ classes, ∀ token ∈ cls.tokens, token.IsProper) :
    ∃ groups, (units.flatMap fun unit => sourceLabels unit.name "" unit.code) =
        Written.groupLabels groups ∧
      groups.map (·.1) = classes.flatMap (·.qualifiedNames) ∧ AreFunctions groups := by
  induction codes with
  | nil => exact ⟨[], rfl, rfl, List.forall_mem_nil _, List.forall_mem_nil _, List.forall_mem_nil _⟩
  | @cons unit cls units classes code _ ih =>
      obtain ⟨here, others⟩ := List.forall_mem_cons.mp proper
      obtain ⟨groups, labels, names, functions⟩ := ih others
      obtain ⟨first, code⟩ := code
      refine ⟨cls.groups library first ++ groups, ?_, ?_, ?_, ?_, ?_⟩
      · rw [List.flatMap_cons, code, labels, cls.sourceLabels_code library first unit.name,
          Written.groupLabels, Written.groupLabels, Written.groupLabels,
          List.flatMap_append]
      · rw [List.map_append, names, cls.names_groups library first, List.flatMap_cons]
      · exact List.forall_mem_append.mpr ⟨fun _ => Written.Class.dot_mem_of_group, functions.dots⟩
      · exact List.forall_mem_append.mpr ⟨fun _ => Written.Class.plain_of_group here, functions.plain⟩
      · exact List.forall_mem_append.mpr ⟨fun _ => Written.Class.nodup_of_group, functions.inner⟩

/-! ## Programs -/

/-- The assembly of a program. -/
def Program.assembly (program : Program) (settings : Settings) : String :=
  (lowerUnits (program.opening settings) (program.compile settings).units).1.text

/-- What the settings are checked for. -/
theorem stackBase_of_check {settings : Settings} (checked : settings.check = .ok settings) :
    settings.stackBase ≤ largestConstant := by
  unfold Settings.check at checked
  split at checked
  · exact absurd checked (by rintro ⟨⟩)
  · split at checked
    · assumption
    · exact absurd checked (by rintro ⟨⟩)

section Processing

variable {program : Program} {settings : Settings} {classes : List Written.Class}

/-- **Lowering.**  Units that hold modest classes with different subroutine names are lowered without a
failure, to legible lines with labels that are different and not predefined. -/
theorem lowered_of_holds (held : List.Forall₂ SourceUnit.Holds program.units classes)
    (base : settings.stackBase ≤ largestConstant)
    (unitNames : ∀ unit ∈ program.units, isSymbol unit.name.toList = true)
    (libraryNames : ∀ name ∈ settings.library.names, isSymbol name.toList = true)
    (distinct : (classes.flatMap (·.qualifiedNames)).Nodup)
    (modest : ∀ cls ∈ classes, cls.IsModest) :
    ∃ lowering, lowerUnits (program.opening settings) (program.compile settings).units = (lowering, []) ∧
      (∀ line ∈ lowering.lines.toList, line.IsLegible) ∧
      (declarations lowering.lines.toList).Nodup ∧
      ∀ name ∈ declarations lowering.lines.toList, predefined[name]? = none := by
  obtain ⟨units, compiles, codes, names⟩ :=
    compileUnits_of_holds held { library := settings.library }
  have product : (program.compile settings).units = units := by
    rw [Program.compile, compiles]
  have unitOf (cls : Written.Class) (member : cls ∈ classes) : ∃ unit, SourceUnit.Holds unit cls := by
    have related : List.Forall₂ (flip SourceUnit.Holds) classes program.units := held.flip
    obtain ⟨unit, -, holds⟩ := exists_partner related member
    exact ⟨unit, holds⟩
  have proper : ∀ cls ∈ classes, ∀ token ∈ cls.tokens, token.IsProper := by
    intro cls member
    obtain ⟨unit, holds⟩ := unitOf cls member
    exact holds.proper
  have lowerable : ∀ unit ∈ units, isSymbol unit.name.toList = true ∧
      ∀ i ∈ unit.code, IsLowerable i := by
    intro unit member
    obtain ⟨cls, inClasses, first, code⟩ := exists_partner codes member
    obtain ⟨source, holds⟩ := unitOf cls inClasses
    have named : unit.name ∈ program.units.map (·.name) := by
      rw [← names]
      exact List.mem_map_of_mem member
    obtain ⟨original, inProgram, same⟩ := List.mem_map.mp named
    refine ⟨same ▸ unitNames original inProgram, ?_⟩
    rw [code]
    exact cls.lowerable libraryNames (modest cls inClasses) holds.proper holds.declared
      holds.withinLimits first
  have entry : isSymbol settings.library.entry.toList = true :=
    libraryNames _ (by simp [Library.names])
  obtain ⟨lowering, lowered, sound⟩ :=
    lowerUnits_sound (opening_sound program base entry) lowerable
  -- The labels that the units name are those of their functions with what is inside these, so they are different
  -- because the functions are, and contain a dot, unlike every predefined symbol.
  obtain ⟨groups, labels, groupNames, functions⟩ := sourceLabels_units codes proper
  have perm := sound.labels
  rw [List.nil_append, labels] at perm
  rw [product]
  obtain ⟨nodup, fresh⟩ := fresh_of_perm perm
    (Written.nodup_groupLabels (groupNames ▸ distinct) functions.plain functions.inner)
    fun name => Written.dot_mem_groupLabels functions.dots
  exact ⟨lowering, lowered, sound.legible, nodup, fresh⟩

/-- **The back end accepts what the front end produces.**  A program whose units all compile is assembled
without a failure, if the names of its units and of the library routines are symbols, the subroutines of
its classes have different names, the classes are modest, and the assembly has neither too many
instructions nor too many free names. -/
theorem processing_succeeds (written : List.Forall₂ SourceUnit.Spells program.units classes)
    (compiled : (program.compile settings).failures = [])
    (checked : settings.check = .ok settings)
    (unitNames : ∀ unit ∈ program.units, isSymbol unit.name.toList = true)
    (libraryNames : ∀ name ∈ settings.library.names, isSymbol name.toList = true)
    (distinct : (classes.flatMap (·.qualifiedNames)).Nodup)
    (modest : ∀ cls ∈ classes, cls.IsModest)
    (short : (instructionLines (program.assembly settings)).length ≤ 65535)
    (few : (freeNames ((sourceLines (program.assembly settings)).map (·.2))).card ≤ 16368) :
    (program.process settings .hack).failures = [] ∧
      (program.process settings .hack).asm = some (program.assembly settings) ∧
      ∃ assembled, Hack.assemble (program.assembly settings) = .ok assembled ∧
        (program.process settings .hack).hack = some assembled.text := by
  obtain ⟨lowering, lowered, legible, nodup, fresh⟩ :=
    lowered_of_holds (holds_of_compiles written compiled) (stackBase_of_check checked) unitNames
      libraryNames distinct modest
  have text : program.assembly settings = lowering.text := by
    rw [Program.assembly, lowered]
  rw [text] at short few ⊢
  obtain ⟨assembled, accepted⟩ : ∃ assembled, Hack.assemble lowering.text = .ok assembled :=
    assemble_text_accepts legible nodup fresh short few
  rw [process_of_accepted compiled lowered accepted]
  exact ⟨compiled, rfl, assembled, accepted, rfl⟩

end Processing

/-! ## A program of one class -/

/-- A class whose function counts a static variable up to three. -/
private def counting : Written.Class where
  name := "A"
  shared := [⟨false, .int, "n", []⟩]
  subroutines := [{
    kind := .function
    returns := none
    name := "f"
    parameters := []
    locals := []
    body := [
      .loop (.chain (.«variable» "n") [(.lt, .integer 3)])
        [.assign "n" (.chain (.«variable» "n") [(.add, .integer 1)])],
      .leave none] }]

/-- Its text. -/
private def countingText : String :=
  "class A \x7b static int n; function void f() \x7b while (n < 3) \x7b let n = n + 1; \x7d return; \x7d \x7d"

/-- Its code. -/
private def countingCode : List Instruction :=
  [.function "A.f" 0, .label "WHILE_EXP0", .push .static_ 0, .push .constant 3, .operate .lt, .operate .not,
    .ifGoto "WHILE_END0", .push .static_ 0, .push .constant 1, .operate .add, .pop .static_ 0,
    .goto "WHILE_EXP0", .label "WHILE_END0", .push .constant 0, .return_, .push .constant 0, .return_]

/-- The program of that class. -/
private def countingProgram : Program where
  name := "A"
  isDirectory := true
  units := [⟨"A", .jack, countingText⟩]

theorem counting_class_processed :
    (countingProgram.process {} .hack).failures = [] ∧
      (countingProgram.process {} .hack).asm = some (countingProgram.assembly {}) ∧
      ∃ assembled, Hack.assemble (countingProgram.assembly {}) = .ok assembled ∧
        (countingProgram.process {} .hack).hack = some assembled.text := by
  have read : tokenize countingText = .ok (counting.tokens.map (⟨·, 1⟩)) := (tokenize_ofList _).trans rfl
  have written : List.Forall₂ SourceUnit.Spells countingProgram.units [counting] :=
    .cons ⟨rfl, _, read, rfl⟩ .nil
  have code : compileUnits { library := {} } countingProgram.units = ([⟨"A", .jack, countingCode⟩], []) :=
    compileUnits_cons_of_ok ((SourceUnit.compile_of_tokens read).trans rfl) rfl
  have compiled : (countingProgram.compile {}).failures = [] := by
    rw [countingProgram.compile_of_units {} code]
  have checked : ({} : Settings).check = .ok {} := by decide
  have unitNames : ∀ unit ∈ countingProgram.units, isSymbol unit.name.toList = true := by decide
  have libraryNames : ∀ name ∈ ({} : Settings).library.names, isSymbol name.toList = true := by decide
  have distinct : ([counting].flatMap (·.qualifiedNames)).Nodup := by decide
  have modest : ∀ cls ∈ [counting], cls.IsModest := by
    intro cls member
    obtain rfl := List.mem_singleton.mp member
    exact ⟨fun kind => by cases kind <;> decide, by decide, by decide, by decide⟩
  -- the assembly has so few lines that its text need not be looked at
  obtain ⟨lowering, lowered, legible, -⟩ := lowered_of_holds (holds_of_compiles written compiled)
    (stackBase_of_check checked) unitNames libraryNames distinct modest
  have size : lowering.lines.toList.length ≤ 16368 := by
    have units : (countingProgram.compile {}).units = [⟨"A", .jack, countingCode⟩] := by
      rw [countingProgram.compile_of_units {} code]
    have counted : (lowerUnits (countingProgram.opening {})
        [⟨"A", .jack, countingCode⟩]).1.lines.toList.length ≤ 16368 := by decide +kernel
    rwa [← units, lowered] at counted
  have text : countingProgram.assembly {} = lowering.text := by
    rw [Program.assembly, lowered]
  obtain ⟨short, few⟩ := within_limits_of_few_lines legible size
  exact processing_succeeds written compiled checked unitNames libraryNames distinct modest
    (text ▸ short) (text ▸ few)

end JackToolchain

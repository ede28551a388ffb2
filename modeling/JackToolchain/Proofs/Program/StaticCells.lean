import JackToolchain.Proofs.Hack.Variables
import JackToolchain.Proofs.Program.LoadedUnits
import JackToolchain.Proofs.Program.LoweredLines
import JackToolchain.Proofs.Program.Stages
import JackToolchain.Proofs.Program.WrittenUnits

/-!
# Static cells

The cells of the static segments of units.

## Main Definitions

* `staticName` — the name of a cell of the static segment of a unit.
* `UsesStatic` — code that uses such a cell.
* `Program.IsWellNamed` — what is asked of the names in a program.

## Main Statements

* `staticName_inj` — the unit and the number of a static cell are told from its name.
* `mem_sourceLabels` — the labels of the source are functions, or hold a dollar sign.
* `staticName_not_mem_declarations` — so no label is named like a static cell, if no function is.
* `statics_never_alias` — static cells of different units, or with different numbers, are different.

## Design Notes

The name of a unit may hold dots, so it is the last dot of the name of a cell that ends it.  A label of a
function has a name that is given, and in stack-machine code it may be that of a cell.
-/

namespace JackToolchain

open Hack Jack Vm Text

/-! ## Names of cells -/

/-- **The last occurrence** of a character cuts a list in only one way. -/
theorem append_cons_inj_of_last {c : Char} {front other behind behind' : List Char}
    (last : c ∉ behind) (last' : c ∉ behind')
    (same : front ++ c :: behind = other ++ c :: behind') : front = other ∧ behind = behind' := by
  have reversed := congrArg List.reverse same
  simp only [List.reverse_append, List.reverse_cons, List.append_assoc, List.singleton_append]
    at reversed
  obtain ⟨taken, dropped⟩ :=
    takeWhile_append_separator (List.mem_reverse.not.mpr last) front.reverse
  obtain ⟨taken', dropped'⟩ :=
    takeWhile_append_separator (List.mem_reverse.not.mpr last') other.reverse
  rw [reversed] at taken dropped
  exact ⟨List.reverse_inj.mp (List.cons.inj (dropped.symm.trans dropped')).2,
    List.reverse_inj.mp (taken.symm.trans taken')⟩

/-- The name of a cell of the static segment of a unit. -/
def staticName (unit : String) (index : Nat) : String := s!"{unit}.{index}"

theorem toList_staticName (unit : String) (index : Nat) :
    (staticName unit index).toList = unit.toList ++ '.' :: (toString index).toList := by
  show (unit ++ "." ++ toString index).toList = _
  rw [String.toList_append, String.toList_append, List.append_assoc]
  rfl

/-- There is no dot in a numeral. -/
theorem dot_not_mem_numeral (number : Nat) : '.' ∉ (toString number).toList :=
  fun inside => absurd (isDigit_of_mem_numeral inside) (by decide)

/-- **The unit and the number** of a static cell are told from its name. -/
theorem staticName_inj {unit other : String} {index index' : Nat} :
    staticName unit index = staticName other index' ↔ unit = other ∧ index = index' := by
  constructor
  · intro same
    have spelled := congrArg String.toList same
    rw [toList_staticName, toList_staticName] at spelled
    obtain ⟨units, numerals⟩ :=
      append_cons_inj_of_last (dot_not_mem_numeral index) (dot_not_mem_numeral index') spelled
    rw [Nat.toString_eq_ofList_toDigits, Nat.toString_eq_ofList_toDigits, String.toList_ofList,
      String.toList_ofList] at numerals
    exact ⟨String.toList_inj.mp units, toDigits_inj numerals⟩
  · rintro ⟨rfl, rfl⟩
    rfl

theorem dot_mem_staticName (unit : String) (index : Nat) : '.' ∈ (staticName unit index).toList := by
  rw [toList_staticName]
  simp

theorem isSymbol_staticName {unit : String} (symbol : isSymbol unit.toList = true) (index : Nat) :
    isSymbol (staticName unit index).toList = true :=
  isSymbol_joined "." symbol (by decide) fun _ member =>
    isSymbolCharacter_of_isDigit (isDigit_of_mem_numeral member)

/-- No subroutine is named like a static cell: its own name does not begin with a digit. -/
theorem qualifiedName_ne_staticName (className : String) {name : String} (isName : IsName name)
    (unit : String) (index : Nat) : qualifiedName className name ≠ staticName unit index := by
  intro same
  have spelled := congrArg String.toList same
  rw [Written.toList_qualifiedName, toList_staticName] at spelled
  have plain : '.' ∉ name.toList := fun inside => absurd (isName.parts _ inside) (by decide)
  obtain ⟨-, numeral⟩ := append_cons_inj_of_last plain (dot_not_mem_numeral index) spelled
  have noDigit := not_isDigit_of_isSymbol (Written.isSymbol_of_isName isName)
  rw [numeral, head?_numeral] at noDigit
  exact Bool.noConfusion noDigit

/-! ## Labels -/

/-- **The labels of the source** are functions, or hold a dollar sign. -/
theorem mem_sourceLabels {unit function name : String} {code : List Instruction}
    (member : name ∈ sourceLabels unit function code) :
    name ∈ functionNames code ∨ '$' ∈ name.toList := by
  induction code generalizing function with
  | nil => exact absurd member List.not_mem_nil
  | cons instruction rest ih =>
      cases instruction with
      | function header localCount =>
          rcases List.mem_cons.mp member with rfl | behind
          · exact .inl List.mem_cons_self
          · exact (ih behind).imp_left (List.mem_cons_of_mem _)
      | label label =>
          rcases List.mem_cons.mp member with rfl | behind
          · refine .inr ?_
            rw [scopedLabel, String.toList_append, String.toList_append]
            simp
          · exact ih behind
      | push | pop | operate | goto | ifGoto | call | return_ => exact ih member

/-- A static cell is no label of the assembly, if no function is named like it. -/
theorem staticName_not_mem_declarations (annotate : Bool) (setUp : Option (Nat × String))
    {units : List CompiledUnit} {unit : String} (plain : '$' ∉ unit.toList) {index : Nat}
    (other : ∀ compiled ∈ units, staticName unit index ∉ functionNames compiled.code) :
    staticName unit index ∉ declarations (Lowering.run annotate setUp units).lines.toList := by
  intro member
  obtain ⟨declared, sublist, accounts⟩ := run_accounts annotate setUp units
  rcases List.mem_append.mp (accounts.labels.mem_iff.mp member) with inSource | inGenerated
  · obtain ⟨compiled, inUnits, inLabels⟩ := List.mem_flatMap.mp (sublist.subset inSource)
    rcases mem_sourceLabels inLabels with function | dollar
    · exact other compiled inUnits function
    · rw [toList_staticName, List.mem_append, List.mem_cons] at dollar
      rcases dollar with inUnit | same | inNumeral
      · exact plain inUnit
      · exact absurd same (by decide)
      · exact absurd (isDigit_of_mem_numeral inNumeral) (by decide)
  · exact no_dot_generated inGenerated (dot_mem_staticName unit index)

/-! ## Programs -/

/-- Code that uses a cell of the static segment of its unit. -/
def UsesStatic (code : List Instruction) (index : Nat) : Prop :=
  .push .static_ index ∈ code ∨ .pop .static_ index ∈ code

/-- **Well-named programs.**  Units have different names, which are symbols without a dollar sign; the
routines of the library have symbols for names; and no function in stack-machine code is named like a
static cell. -/
structure Program.IsWellNamed (program : Program) (library : Library) : Prop where
  distinct : (program.units.map (·.name)).Nodup
  symbols : ∀ unit ∈ program.units, isSymbol unit.name.toList = true ∧ '$' ∉ unit.name.toList
  routines : ∀ name ∈ library.names, isSymbol name.toList = true
  functions : ∀ unit ∈ program.units, unit.kind = .vm → ∀ code, Vm.read unit.text = .ok code →
    ∀ name ∈ functionNames code, ∀ front index, name ≠ staticName front index

section WellNamed

variable {program : Program} {settings : Settings}

/-- The names in compiled units are words. -/
theorem Program.IsWellNamed.isSpelled (named : program.IsWellNamed settings.library)
    {unit : CompiledUnit} (member : unit ∈ (program.compile settings).units) : unit.IsSpelled := by
  obtain ⟨source, inSources, name, before, library, compiled⟩ := compiled_of_mem_units member
  refine ⟨name ▸ isWord_of_isSymbol (named.symbols source inSources).1, ?_⟩
  have routines : ∀ routine ∈ before.library.names, IsWord routine := by
    rw [library]
    exact fun routine inNames => isWord_of_isSymbol (named.routines routine inNames)
  exact fun i inCode => (source.isWritable_of_compile routines compiled i inCode).isWord

/-- No function of a compiled unit is named like a static cell. -/
theorem Program.IsWellNamed.function_ne (named : program.IsWellNamed settings.library)
    {unit : CompiledUnit} (member : unit ∈ (program.compile settings).units) {name : String}
    (inCode : name ∈ functionNames unit.code) (front : String) (index : Nat) :
    name ≠ staticName front index := by
  obtain ⟨source, inSources, -, before, -, compiled⟩ := compiled_of_mem_units member
  cases kind : source.kind with
  | jack =>
      obtain ⟨cls, holds, code⟩ := SourceUnit.holds_of_compile kind compiled
      rw [code, cls.functionNames_code] at inCode
      obtain ⟨subroutine, inClass, rfl⟩ := List.mem_map.mp inCode
      exact qualifiedName_ne_staticName cls.name
        (Written.Subroutine.isName_name inClass holds.proper) front index
  | vm =>
      rw [SourceUnit.compile, kind] at compiled
      exact named.functions source inSources kind unit.code compiled name inCode front index

/-- The opening of a program, as what sets up its stack. -/
theorem Program.opening_eq (program : Program) (settings : Settings) :
    program.opening settings = Lowering.start settings.annotate
      (if program.startsUp settings then some (settings.stackBase, settings.library.entry) else none) := by
  unfold Program.opening
  split <;> rfl

/-- **The labels and the symbols** that the assembler sees in a well-named program are those of its
lines. -/
theorem Program.IsWellNamed.seen (named : program.IsWellNamed settings.library) {lowering : Lowering}
    (lowered : lowerUnits (program.opening settings) (program.compile settings).units = (lowering, [])) :
    (sourceLines lowering.text).map (·.2) = lowering.lines.toList.filterMap Line.source? ∧
      ∀ {unit : String}, '$' ∉ unit.toList → ∀ index,
        staticName unit index ∉ declarations lowering.lines.toList := by
  have run : lowering = Lowering.run settings.annotate
      (if program.startsUp settings then some (settings.stackBase, settings.library.entry) else none)
      (program.compile settings).units := by
    rw [Lowering.run, ← program.opening_eq, lowered]
  constructor
  · refine sourceLines_text ?_
    rw [run]
    refine readable_run _ (fun call called => ?_) fun unit member => named.isSpelled member
    split at called
    · obtain rfl := Option.some.inj called
      exact isWord_of_isSymbol (named.routines _ (by simp [Library.names]))
    · cases called
  · intro unit plain index
    rw [run]
    exact staticName_not_mem_declarations _ _ plain fun compiled member inCode =>
      named.function_ne member inCode unit index rfl

/-- The assembly names every static cell that code uses. -/
theorem address_of_usesStatic {lowering : Lowering} {unit : String} {code : List Instruction}
    (blocks : ∀ i ∈ code, lowering.HasBlock unit i) {index : Nat} (uses : UsesStatic code index) :
    Line.symbol (staticName unit index) ∈ lowering.lines.toList := by
  rcases uses with pushed | popped
  · obtain ⟨reached, rfl, _, emits, part⟩ := blocks _ pushed
    obtain ⟨block, found, rfl⟩ := emits.eq_block
    obtain rfl := Option.some.inj found
    exact part.subset (List.mem_append_right _ List.mem_cons_self)
  · obtain ⟨reached, rfl, _, emits, part⟩ := blocks _ popped
    obtain ⟨block, found, rfl⟩ := emits.eq_block
    obtain rfl := Option.some.inj found
    exact part.subset (List.mem_append_right _ (List.mem_append_right _ List.mem_cons_self))

/-- **Statics never alias.**  If a well-named program is taken to words without a failure, then in the
symbols of its assembly every static cell that a unit uses has a value.  Whatever values static cells have,
they are addresses between the registers and the screen, no label is named like a static cell, and whatever
else has the value of one is a label; two cells have the same address exactly if they are the same cell of
the same unit. -/
theorem statics_never_alias (named : program.IsWellNamed settings.library)
    (succeeded : (program.process settings .hack).succeeded = true) :
    ∃ asm assembled, (program.process settings .hack).asm = some asm ∧
      assemble asm = .ok assembled ∧
      (program.process settings .hack).hack = some assembled.text ∧
      (∀ unit ∈ (program.process settings .hack).units, ∀ index, UsesStatic unit.code index →
        ∃ cell, assembled.symbols[staticName unit.name index]? = some cell) ∧
      (∀ unit ∈ program.units, ∀ index cell,
        assembled.symbols[staticName unit.name index]? = some cell →
          16 ≤ cell ∧ cell ≤ 16383 ∧
          staticName unit.name index ∉ declaredNames ((sourceLines asm).map (·.2)) ∧
          ∀ other, assembled.symbols[other]? = some cell → other = staticName unit.name index ∨
            other ∈ declaredNames ((sourceLines asm).map (·.2))) ∧
      ∀ unit ∈ program.units, ∀ other ∈ program.units, ∀ index index' cell cell',
        assembled.symbols[staticName unit.name index]? = some cell →
        assembled.symbols[staticName other.name index']? = some cell' →
          (cell = cell' ↔ unit = other ∧ index = index') := by
  obtain ⟨lowering, assembled, compiled, lowered, accepted, units, asm, hack⟩ :=
    assembled_of_succeeded succeeded
  obtain ⟨seen, undeclared⟩ := named.seen lowered
  have isVariable {unit : SourceUnit} (member : unit ∈ program.units) (index : Nat) :
      IsVariable lowering.text (staticName unit.name index) := by
    refine ⟨predefined_eq_none_of_dot (dot_mem_staticName _ _), ?_⟩
    rw [seen, declaredNames_source]
    exact undeclared (named.symbols unit member).2 index
  refine ⟨lowering.text, assembled, asm, accepted, hack, ?_, ?_, ?_⟩
  · rw [units]
    intro unit member index uses
    have line := address_of_usesStatic ((hasBlock_of_lowerUnits lowered).2 unit member) uses
    obtain ⟨source, inSources, name, -⟩ := compiled_of_mem_units member
    have symbol : isSymbol unit.name.toList = true := name ▸ (named.symbols source inSources).1
    have inText : .address (staticName unit.name index).toList ∈ (sourceLines lowering.text).map (·.2) := by
      rw [seen]
      exact List.mem_filterMap.mpr ⟨_, line, rfl⟩
    refine bound_of_used accepted inText ?_
    rw [SourceLine.used?, not_isDigit_of_isSymbol (isSymbol_staticName symbol index),
      if_neg Bool.false_ne_true, String.ofList_toList]
  · intro unit member index cell bound
    obtain ⟨least, below⟩ := variable_within accepted (isVariable member index) bound
    exact ⟨least, Nat.le_of_lt_succ below, (isVariable member index).undeclared,
      fun other boundToo => variables_apart accepted (isVariable member index) bound boundToo⟩
  · intro unit member other memberToo index index' cell cell' bound boundToo
    constructor
    · rintro rfl
      have same := (variables_apart accepted (isVariable member index) bound boundToo).resolve_right
        (isVariable memberToo index').undeclared
      obtain ⟨names, rfl⟩ := staticName_inj.mp same
      exact ⟨(List.inj_on_of_nodup_map named.distinct memberToo member names).symm, rfl⟩
    · rintro ⟨rfl, rfl⟩
      exact Option.some.inj (bound.symm.trans boundToo)

end WellNamed

/-! ## Two units -/

private def counterText : String :=
  "class Counter \x7b static int next; function int next() \x7b return next; \x7d \x7d"

private def counterCode : List Instruction := [.function "Counter.next" 0, .push .static_ 0, .return_]

private def counterTokens : List Token :=
  [.keyword .class_, .identifier "Counter", .symbol '{', .keyword .static_, .keyword .int, .identifier "next",
    .symbol ';', .keyword .function, .keyword .int, .identifier "next", .symbol '(', .symbol ')', .symbol '{',
    .keyword .return_, .identifier "next", .symbol ';', .symbol '}', .symbol '}']

private def storeText : String := "function Store.copy 0\npush static 1\npop static 0"

private def storeCode : List Instruction :=
  [.function "Store.copy" 0, .push .static_ 1, .pop .static_ 0]

private theorem read_storeText : Vm.read storeText = .ok storeCode := by
  rfl

private def counterUnit : SourceUnit := ⟨"Counter", .jack, counterText⟩

private def storeUnit : SourceUnit := ⟨"Store", .vm, storeText⟩

/-- A class with a static variable, and code that copies one cell to another. -/
private def staticProgram : Program := ⟨"Statics", false, [counterUnit, storeUnit]⟩

private theorem compile_staticProgram : (staticProgram.compile {}).failures = [] ∧
    (staticProgram.compile {}).units = [⟨"Counter", .jack, counterCode⟩, ⟨"Store", .vm, storeCode⟩] := by
  have tokens : tokenize counterText = .ok (counterTokens.map (⟨·, 1⟩)) := (tokenize_ofList _).trans rfl
  have units : compileUnits { library := {} } [counterUnit, storeUnit] =
      ([⟨"Counter", .jack, counterCode⟩, ⟨"Store", .vm, storeCode⟩], []) :=
    compileUnits_cons_of_ok ((SourceUnit.compile_of_tokens tokens).trans rfl)
      (compileUnits_cons_of_ok (SourceUnit.compile_of_read read_storeText) rfl)
  rw [staticProgram.compile_of_units {} units]
  exact ⟨rfl, rfl⟩

private theorem process_staticProgram : (staticProgram.process {} .hack).succeeded = true ∧
    (staticProgram.process {} .hack).units = (staticProgram.compile {}).units := by
  obtain ⟨compiled, units⟩ := compile_staticProgram
  have cell {index : Nat} (small : index ≤ largestConstant) : HasCell .static_ index :=
    ⟨small, nofun, nofun⟩
  have lowerable : ∀ unit ∈ (staticProgram.compile {}).units,
      isSymbol unit.name.toList = true ∧ ∀ i ∈ unit.code, IsLowerable i := by
    rw [units]
    refine List.forall_mem_cons.mpr ⟨⟨rfl, ?_⟩, List.forall_mem_singleton.mpr ⟨rfl, ?_⟩⟩
    · exact List.forall_mem_cons.mpr ⟨rfl, List.forall_mem_cons.mpr
        ⟨cell (by decide), List.forall_mem_singleton.mpr trivial⟩⟩
    · exact List.forall_mem_cons.mpr ⟨rfl, List.forall_mem_cons.mpr
        ⟨cell (by decide), List.forall_mem_singleton.mpr ⟨cell (by decide), nofun⟩⟩⟩
  have opened : (staticProgram.opening {}).Sound [] :=
    opening_sound staticProgram (by decide) (by decide)
  obtain ⟨lowering, lowered, sound⟩ := lowerUnits_sound opened lowerable
  obtain ⟨nodup, fresh⟩ := fresh_of_perm sound.labels (by rw [units]; decide) (by rw [units]; decide)
  -- the assembly has so few lines that its text need not be looked at
  have size : (lowerUnits (staticProgram.opening {})
      (staticProgram.compile {}).units).1.lines.toList.length ≤ 16368 := by
    rw [units]
    decide
  rw [lowered] at size
  obtain ⟨short, few⟩ := within_limits_of_few_lines sound.legible size
  obtain ⟨assembled, accepted⟩ := assemble_text_accepts sound.legible nodup fresh short few
  rw [process_of_accepted compiled lowered accepted, Product.succeeded, compiled]
  exact ⟨rfl, rfl⟩

theorem counter_and_store_apart :
    staticProgram.IsWellNamed ({} : Settings).library ∧
      (staticProgram.process {} .hack).succeeded = true ∧
      ∃ asm assembled counter store copied, (staticProgram.process {} .hack).asm = some asm ∧
        assemble asm = .ok assembled ∧
        assembled.symbols["Counter.0"]? = some counter ∧ assembled.symbols["Store.0"]? = some store ∧
        assembled.symbols["Store.1"]? = some copied ∧ counter ≠ store ∧ store ≠ copied := by
  have isName : IsName "copy" := by decide
  have named : staticProgram.IsWellNamed ({} : Settings).library := by
    refine ⟨by decide, by decide, by decide, ?_⟩
    refine List.forall_mem_cons.mpr ⟨nofun, List.forall_mem_singleton.mpr fun _ code found => ?_⟩
    obtain rfl := Except.ok.inj (found.symm.trans read_storeText)
    exact List.forall_mem_singleton.mpr (qualifiedName_ne_staticName "Store" isName)
  obtain ⟨succeeded, units⟩ := process_staticProgram
  obtain ⟨asm, assembled, text, accepted, -, used, -, apart⟩ := statics_never_alias named succeeded
  rw [units, compile_staticProgram.2] at used
  obtain ⟨ofCounter, ofStore⟩ := List.forall_mem_cons.mp used
  obtain ⟨counter, isCounter⟩ := ofCounter 0 (.inl (by decide))
  obtain ⟨store, isStore⟩ := List.forall_mem_singleton.mp ofStore 0 (.inr (by decide))
  obtain ⟨copied, isCopied⟩ := List.forall_mem_singleton.mp ofStore 1 (.inl (by decide))
  have fromStore := apart storeUnit (List.mem_cons_of_mem _ List.mem_cons_self)
  have same_unit := (fromStore counterUnit List.mem_cons_self 0 0 store counter isStore isCounter).mp
  have same_index := (fromStore storeUnit (List.mem_cons_of_mem _ List.mem_cons_self) 0 1 store copied
    isStore isCopied).mp
  refine ⟨named, succeeded, asm, assembled, counter, store, copied, text, accepted, isCounter, isStore,
    isCopied, fun same => ?_, fun same => ?_⟩
  · exact absurd (congrArg SourceUnit.name (same_unit same.symm).1) (by decide)
  · exact absurd (same_index same).2 (by decide)

end JackToolchain

import JackToolchain.Proofs.Jack.LabelOffset
import JackToolchain.Proofs.Jack.SessionLabels
import JackToolchain.Proofs.Program.Processing

/-!
# Separate compilation

The code of a class is put together from the code of classes with one subroutine each, and the code of a
program from that of its units.  What stands in front shows in the numbers of labels only.

## Main Definitions

* `Written.Class.only` — a class with only one of its subroutines.
* `Session.restarted` — a session in which nothing has been compiled yet.
* `classTexts` — the texts that take numbers.

## Main Statements

* `Written.Class.IsWrittenIn.compile_eq_ok_iff` — whether a class is compiled does not depend on the
  session, and its code depends only on the library and the first number.
* `Session.toOption_compile` — a text in any session, and in a session that begins with it.
* `units_compileUnits` — units in a program, and each of them on its own.
* `classes_compile_by_subroutines` — both, down to subroutines.

## Design Notes

A text that is refused has no code, but it takes numbers as far as it is read.  So the offset of a unit
is the number that the session has reached in front of it, which `Session.nextLabel_compile` counts.
-/

namespace JackToolchain

open Jack Vm

namespace Jack

/-! ## Classes with one subroutine -/

namespace Written.Class

/-- The class with only one of its subroutines. -/
def only (cls : Class) (subroutine : Subroutine) : Class := { cls with subroutines := [subroutine] }

/-- Names are declared in a class if they are in each of its subroutines. -/
theorem declared_iff_only {cls : Class} :
    cls.Declared ↔ ∀ subroutine ∈ cls.subroutines, (cls.only subroutine).Declared := by
  simp only [Declared, only, List.forall_mem_singleton]
  rfl

/-- String constants are within the limits in a class if they are in each of its subroutines. -/
theorem withinLimits_iff_only {cls : Class} :
    cls.WithinLimits ↔ ∀ subroutine ∈ cls.subroutines, (cls.only subroutine).WithinLimits := by
  simp only [WithinLimits, only, List.forall_mem_singleton]

/-- The local variables of a class are all read if those of each of its subroutines are. -/
theorem readsOn_iff_only {cls : Class} :
    cls.ReadsOn ↔ ∀ subroutine ∈ cls.subroutines, (cls.only subroutine).ReadsOn := by
  simp only [ReadsOn, only, List.forall_mem_singleton]

/-- A class that can be compiled. -/
structure Compiles (cls : Class) : Prop where
  readsOn : cls.ReadsOn
  declared : cls.Declared
  withinLimits : cls.WithinLimits

/-- **A class can be compiled** if it can be with each of its subroutines alone. -/
theorem compiles_iff_only {cls : Class} :
    cls.Compiles ↔ ∀ subroutine ∈ cls.subroutines, (cls.only subroutine).Compiles := by
  constructor
  · intro compiles subroutine member
    exact ⟨readsOn_iff_only.mp compiles.readsOn subroutine member,
      declared_iff_only.mp compiles.declared subroutine member,
      withinLimits_iff_only.mp compiles.withinLimits subroutine member⟩
  · intro each
    exact ⟨readsOn_iff_only.mpr fun subroutine member => (each subroutine member).readsOn,
      declared_iff_only.mpr fun subroutine member => (each subroutine member).declared,
      withinLimits_iff_only.mpr fun subroutine member => (each subroutine member).withinLimits⟩

/-- What a class is compiled to, if its branching statements are numbered from somewhere on. -/
def compiled (cls : Class) (library : Library) (first : Nat) : CompiledClass :=
  ⟨cls.name, (cls.resolved first).code library⟩

/-- The code of a class with one subroutine is that of the subroutine. -/
theorem code_compiled_only (cls : Class) (subroutine : Subroutine) (library : Library) :
    ((cls.only subroutine).compiled library 0).code =
      (subroutine.resolved cls.name cls.table 0).code library cls.name (counted cls.fieldCount) :=
  List.append_nil _

/-- **The code of a class** is that of the classes with one of its subroutines each, numbered from zero on,
with the numbers raised by how many there are in front. -/
theorem code_compiled (cls : Class) (library : Library) (first : Nat) :
    (cls.compiled library first).code =
      (cls.subroutines.map fun subroutine => (cls.only subroutine).compiled library 0).zipIdx.flatMap
        fun (piece, position) => piece.code.map
          (·.raised (first + branchingsWithin (cls.subroutines.take position))) := by
  refine (code_resolvedSubroutines library cls.name cls.table (counted cls.fieldCount) cls.subroutines
    first).trans ?_
  rw [List.zipIdx_map, List.flatMap_map]
  refine List.flatMap_congr fun item _ => ?_
  obtain ⟨subroutine, position⟩ := item
  dsimp only [Prod.map_apply, id_eq]
  rw [code_compiled_only]

/-- A class that is numbered from elsewhere on has the same code with other numbers. -/
theorem raised_compiled (cls : Class) (library : Library) (first offset : Nat) :
    (cls.compiled library first).code.map (·.raised offset) =
      (cls.compiled library (first + offset)).code :=
  raised_subroutines library cls.name cls.table (counted cls.fieldCount) offset cls.subroutines first

variable {cls : Class} {source : String}

/-- **What a class in a text is compiled to.** -/
theorem IsWrittenIn.compile_eq_ok_iff (written : cls.IsWrittenIn source) (session : Session)
    {result : CompiledClass} :
    (session.compile source).1 = .ok result ↔
      cls.Compiles ∧ result = cls.compiled session.library session.nextLabel := by
  obtain ⟨tokens, read, spelled⟩ := id written
  have proper := isProper_of_spelled read spelled
  constructor
  · intro accepted
    obtain ⟨readsOn, admissible, same, -⟩ := written.resolved_of_accepted accepted
    obtain ⟨declared, limits⟩ := (admissible_iff proper).mp admissible
    exact ⟨⟨readsOn, declared, limits⟩, same⟩
  · rintro ⟨⟨readsOn, declared, limits⟩, rfl⟩
    obtain ⟨next, compiles⟩ := compiles_of_derivation session spelled proper readsOn declared limits
    rw [Session.compile, read]
    exact congrArg Prod.fst compiles

/-- Whether a class in a text is compiled does not depend on the session. -/
theorem IsWrittenIn.accepted_iff (written : cls.IsWrittenIn source) (session : Session) :
    (∃ result, (session.compile source).1 = .ok result) ↔ cls.Compiles := by
  constructor
  · rintro ⟨result, accepted⟩
    exact ((written.compile_eq_ok_iff session).mp accepted).1
  · intro compiles
    exact ⟨_, (written.compile_eq_ok_iff session).mpr ⟨compiles, rfl⟩⟩

/-- What a class in a text has taken once it is compiled. -/
theorem IsWrittenIn.after_compile (written : cls.IsWrittenIn source) (session : Session)
    {result : CompiledClass} (accepted : (session.compile source).1 = .ok result) :
    (session.compile source).2 =
      { session with nextLabel := session.nextLabel + cls.branchings } := by
  obtain ⟨-, -, -, after⟩ := written.resolved_of_accepted accepted
  exact after

end Written.Class

/-! ## Sessions -/

/-- The same class with the numbers in its labels raised. -/
def CompiledClass.raised (offset : Nat) (compiled : CompiledClass) : CompiledClass :=
  { compiled with code := compiled.code.map (·.raised offset) }

namespace Session

/-- The session in which nothing has been compiled yet. -/
def restarted (session : Session) : Session := { session with nextLabel := 0 }

/-- The code of a text does not depend on what has been compiled, but for the numbers. -/
theorem raised_of_compile {session : Session} {source : String} {result : CompiledClass}
    (accepted : (session.restarted.compile source).1 = .ok result) :
    (session.compile source).1 = .ok (result.raised session.nextLabel) := by
  obtain ⟨cls, written⟩ := Written.exists_isWrittenIn accepted
  obtain ⟨compiles, rfl⟩ := (written.compile_eq_ok_iff _).mp accepted
  refine (written.compile_eq_ok_iff session).mpr ⟨compiles, ?_⟩
  have code := cls.raised_compiled session.library 0 session.nextLabel
  rw [Nat.zero_add] at code
  exact congrArg (CompiledClass.mk cls.name) code

/-- What a session accepts, it accepts at its beginning. -/
theorem restarted_of_compile {session : Session} {source : String} {result : CompiledClass}
    (accepted : (session.compile source).1 = .ok result) :
    ∃ piece, (session.restarted.compile source).1 = .ok piece := by
  obtain ⟨cls, written⟩ := Written.exists_isWrittenIn accepted
  obtain ⟨compiles, -⟩ := (written.compile_eq_ok_iff session).mp accepted
  exact ⟨_, (written.compile_eq_ok_iff _).mpr ⟨compiles, rfl⟩⟩

/-- **What stands in front of a text** raises the numbers in its code, and has no other effect. -/
theorem toOption_compile (session : Session) (source : String) :
    (session.compile source).1.toOption =
      (session.restarted.compile source).1.toOption.map (·.raised session.nextLabel) := by
  cases alone : (session.restarted.compile source).1 with
  | ok piece =>
      rw [raised_of_compile alone]
      rfl
  | error error =>
      cases accepted : (session.compile source).1 with
      | error => rfl
      | ok result =>
          obtain ⟨piece, other⟩ := restarted_of_compile accepted
          exact absurd (alone.symm.trans other) nofun

end Session

end Jack

/-! ## Units -/

/-- The texts of the classes among units. -/
def classTexts (units : List SourceUnit) : List String :=
  (units.filter (·.kind = .jack)).map (·.text)

/-- The same unit with the numbers in its labels raised, if it is a class. -/
def CompiledUnit.raised (offset : Nat) (unit : CompiledUnit) : CompiledUnit :=
  match unit.kind with
  | .jack => { unit with code := unit.code.map (·.raised offset) }
  | .vm => unit

/-- Behind a unit, the session has compiled its class. -/
theorem SourceUnit.behind_compile (unit : SourceUnit) (session : Session) (rest : List SourceUnit) :
    (unit.compile session).2.behind (classTexts rest) = session.behind (classTexts (unit :: rest)) := by
  unfold classTexts SourceUnit.compile
  cases kind : unit.kind with
  | jack => rw [List.filter_cons_of_pos (by simpa using kind)]; rfl
  | vm => rw [List.filter_cons_of_neg (by simp [kind])]

/-- A unit on its own. -/
theorem compileUnits_singleton (session : Session) (unit : SourceUnit) :
    (compileUnits session [unit]).1 =
      ((unit.compile session).1.toOption.map fun code => ⟨unit.name, unit.kind, code⟩).toList := by
  rw [compileUnits]
  obtain ⟨result, after⟩ := unit.compile session
  cases result <;> rfl

/-- The units behind a unit. -/
theorem compileUnits_cons (session : Session) (unit : SourceUnit) (rest : List SourceUnit) :
    (compileUnits session (unit :: rest)).1 =
      (compileUnits session [unit]).1 ++ (compileUnits (unit.compile session).2 rest).1 := by
  rw [compileUnits_singleton, compileUnits]
  obtain ⟨result, after⟩ := unit.compile session
  cases result <;> rfl

/-- **What stands in front of a unit** raises the numbers in its code, and has no other effect. -/
theorem compileUnits_restarted (session : Session) (unit : SourceUnit) :
    (compileUnits session [unit]).1 =
      (compileUnits session.restarted [unit]).1.map (·.raised session.nextLabel) := by
  rw [compileUnits_singleton, compileUnits_singleton]
  obtain ⟨name, kind, text⟩ := unit
  unfold SourceUnit.compile
  cases kind with
  | vm =>
      dsimp only
      cases Vm.read text <;> rfl
  | jack =>
      have mapped (result : Except Error CompiledClass) :
          (result.map (·.code)).toOption = result.toOption.map (·.code) := by
        cases result <;> rfl
      dsimp only
      rw [mapped, mapped, session.toOption_compile text]
      cases (session.restarted.compile text).1 <;> rfl

/-- **Units in a program.**  The code of each unit is the code that it has on its own, with the numbers
raised by what the units in front of it have taken, whether they were accepted or not. -/
theorem units_compileUnits (session : Session) (units : List SourceUnit) :
    (compileUnits session units).1 = units.zipIdx.flatMap fun (unit, position) =>
      (compileUnits session.restarted [unit]).1.map
        (·.raised (session.behind (classTexts (units.take position))).nextLabel) := by
  induction units generalizing session with
  | nil => rfl
  | cons unit rest ih =>
      have restarted : (unit.compile session).2.restarted = session.restarted :=
        congrArg (Session.mk · 0) (unit.library_compile session)
      rw [compileUnits_cons, ih, List.zipIdx_cons', List.flatMap_cons, List.flatMap_map, restarted]
      refine congrArg₂ (· ++ ·) (compileUnits_restarted session unit) ?_
      refine List.flatMap_congr fun item _ => ?_
      obtain ⟨other, position⟩ := item
      dsimp only [Prod.map_apply, id_eq]
      rw [List.take_succ_cons, unit.behind_compile]

namespace Jack.Written

/-- **Compilation is compositional up to label numbers.**  A class is compiled, from any number on,
exactly if it is with each of its subroutines alone.  Its code is then put together from the code of
these, each numbered from zero on and then raised by how many branching statements stand in front, and
the session has taken one number for each branching statement.  The units of a program, those that are
refused among them, depend on each other by the offset of their numbers only. -/
theorem classes_compile_by_subroutines (session : Session) {cls : Class} {source : String}
    {parts : List String} (written : cls.IsWrittenIn source)
    (alone : List.Forall₂ (fun part subroutine => (cls.only subroutine).IsWrittenIn part) parts
      cls.subroutines) :
    ((∃ compiled, (session.compile source).1 = .ok compiled) ↔
      ∀ part ∈ parts, ∃ piece, (session.restarted.compile part).1 = .ok piece) ∧
    (∀ compiled, (session.compile source).1 = .ok compiled →
      ∃ pieces, List.Forall₂ (fun part piece => (session.restarted.compile part).1 = .ok piece) parts
          pieces ∧
        compiled.code = (pieces.zipIdx.flatMap fun (piece, position) => piece.code.map
          (·.raised (session.nextLabel + branchingsWithin (cls.subroutines.take position)))) ∧
        (session.compile source).2 =
          { session with nextLabel := session.nextLabel + branchingsWithin cls.subroutines }) ∧
    ∀ units, (compileUnits session units).1 = units.zipIdx.flatMap fun (unit, position) =>
      (compileUnits session.restarted [unit]).1.map
        (·.raised (session.behind (classTexts (units.take position))).nextLabel) := by
  have acceptance : (∃ compiled, (session.compile source).1 = .ok compiled) ↔
      ∀ part ∈ parts, ∃ piece, (session.restarted.compile part).1 = .ok piece := by
    rw [written.accepted_iff, Class.compiles_iff_only]
    constructor
    · intro each part member
      obtain ⟨subroutine, inClass, writtenIn⟩ := exists_partner alone member
      exact (Class.IsWrittenIn.accepted_iff writtenIn _).mpr (each subroutine inClass)
    · intro each subroutine member
      obtain ⟨part, inParts, writtenIn⟩ := exists_partner alone.flip member
      exact (Class.IsWrittenIn.accepted_iff writtenIn _).mp (each part inParts)
  refine ⟨acceptance, fun compiled accepted => ?_, units_compileUnits session⟩
  refine ⟨cls.subroutines.map fun subroutine => (cls.only subroutine).compiled session.library 0,
    ?_, ?_, written.after_compile session accepted⟩
  · rw [List.forall₂_map_right_iff]
    have each := acceptance.mp ⟨compiled, accepted⟩
    refine ((List.forall₂_and_left _ _).mpr ⟨each, alone⟩).imp
      fun part subroutine ⟨compiles, writtenIn⟩ => ?_
    obtain ⟨piece, accepted⟩ := compiles
    obtain ⟨-, rfl⟩ := (writtenIn.compile_eq_ok_iff _).mp accepted
    exact accepted
  · obtain ⟨-, rfl⟩ := (written.compile_eq_ok_iff session).mp accepted
    exact cls.code_compiled session.library session.nextLabel

private def looping : Subroutine where
  kind := .function
  returns := none
  name := "f"
  parameters := []
  locals := []
  body := [.loop (.chain .true_ []) [.assign "n" (.chain (.integer 1) [])], .leave none]

private def branching : Subroutine where
  kind := .function
  returns := none
  name := "g"
  parameters := []
  locals := []
  body := [.branch (.chain .true_ []) [], .leave none]

/-- A class with a loop in one subroutine and a branch in the other. -/
private def paired : Class := ⟨"A", [⟨false, .int, "n", []⟩], [looping, branching]⟩

private def pairedText : String :=
  "class A \x7b static int n; function void f() \x7b while (true) \x7b let n = 1; \x7d return; \x7d
     function void g() \x7b if (true) \x7b \x7d return; \x7d \x7d"

private def loopText : String :=
  "class A \x7b static int n; function void f() \x7b while (true) \x7b let n = 1; \x7d return; \x7d \x7d"

private def branchText : String :=
  "class A \x7b static int n; function void g() \x7b if (true) \x7b \x7d return; \x7d \x7d"

private def loopCode : List Instruction :=
  [.function "A.f" 0, .label "WHILE_EXP0", .push .constant 0, .operate .not, .operate .not,
    .ifGoto "WHILE_END0", .push .constant 1, .pop .static_ 0, .goto "WHILE_EXP0",
    .label "WHILE_END0", .push .constant 0, .return_, .push .constant 0, .return_]

private def branchCode : List Instruction :=
  [.function "A.g" 0, .push .constant 0, .operate .not, .operate .not, .ifGoto "IF_TRUE0",
    .goto "IF_FALSE0", .label "IF_TRUE0", .label "IF_FALSE0", .push .constant 0, .return_,
    .push .constant 0, .return_]

set_option maxRecDepth 2000 in
private theorem written_paired : paired.IsWrittenIn pairedText :=
  ⟨(paired.tokens.take 27).map (⟨·, 1⟩) ++ (paired.tokens.drop 27).map (⟨·, 2⟩),
    (tokenize_ofList _).trans rfl, rfl⟩

private theorem read_loopText : tokenize loopText = .ok ((paired.only looping).tokens.map (⟨·, 1⟩)) :=
  (tokenize_ofList _).trans rfl

private theorem read_branchText :
    tokenize branchText = .ok ((paired.only branching).tokens.map (⟨·, 1⟩)) :=
  (tokenize_ofList _).trans rfl

private theorem written_alone :
    List.Forall₂ (fun part subroutine => (paired.only subroutine).IsWrittenIn part)
      [loopText, branchText] paired.subroutines :=
  .cons ⟨_, read_loopText, rfl⟩ (.cons ⟨_, read_branchText, rfl⟩ .nil)

private theorem compile_loop : ((⟨{}, 0⟩ : Session).compile loopText).1 = .ok ⟨"A", loopCode⟩ := by
  rw [Session.compile, read_loopText]
  rfl

private theorem compile_branch :
    ((⟨{}, 0⟩ : Session).compile branchText).1 = .ok ⟨"A", branchCode⟩ := by
  rw [Session.compile, read_branchText]
  rfl

theorem loop_and_branch_compiled_apart :
    paired.IsWrittenIn pairedText ∧
    List.Forall₂ (fun part subroutine => (paired.only subroutine).IsWrittenIn part)
      [loopText, branchText] paired.subroutines ∧
    ∃ compiled, ((⟨{}, 7⟩ : Session).compile pairedText).1 = .ok compiled ∧
      compiled.code = loopCode.map (·.raised 7) ++ branchCode.map (·.raised 8) ∧
      labels compiled.code = ["WHILE_EXP7", "WHILE_END7", "IF_TRUE8", "IF_FALSE8"] := by
  obtain ⟨acceptance, composed, -⟩ :=
    classes_compile_by_subroutines ⟨{}, 7⟩ written_paired written_alone
  obtain ⟨compiled, accepted⟩ := acceptance.mpr
    (List.forall_mem_cons.mpr ⟨⟨_, compile_loop⟩, List.forall_mem_singleton.mpr ⟨_, compile_branch⟩⟩)
  obtain ⟨pieces, each, code, -⟩ := composed compiled accepted
  obtain ⟨first, rest, isLoop, others, rfl⟩ := List.forall₂_cons_left_iff.mp each
  obtain ⟨second, ended, isBranch, nothing, rfl⟩ := List.forall₂_cons_left_iff.mp others
  obtain rfl := List.forall₂_nil_left_iff.mp nothing
  obtain rfl := Except.ok.inj (compile_loop.symm.trans isLoop)
  obtain rfl := Except.ok.inj (compile_branch.symm.trans isBranch)
  have joined : compiled.code = loopCode.map (·.raised 7) ++ branchCode.map (·.raised 8) := by
    rw [code]
    decide
  refine ⟨written_paired, written_alone, compiled, accepted, joined, ?_⟩
  rw [joined]
  decide

end Jack.Written

end JackToolchain

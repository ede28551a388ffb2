import JackToolchain.Proofs.Program.SeparateCompilation
import JackToolchain.Proofs.Program.Stages

/-!
# Failures

Which units fail, and what is left of a program in which something fails.

## Main Definitions

* `SourceUnit.compiles` — whether a unit compiles, whatever stands in front of it.
* `CompiledUnit.IsOf`, `Failure.IsOf` — what becomes of a unit.
* `Program.Passes` — nothing fails, as far as a program is taken.
* `Product.IsGated` — what a product holds, by what has failed.

## Main Statements

* `compileUnits_parted` — the code of the units that compile and the failures of the others, in order.
* `Program.process_gated` — the product of a program.
-/

namespace JackToolchain

open Hack Jack Vm

/-! ## Units -/

/-- Whether a unit compiles. -/
def SourceUnit.compiles (library : Library) (unit : SourceUnit) : Bool :=
  (unit.compile { library }).1.isOk

/-- **Whether a unit compiles** does not depend on the units in front of it. -/
theorem SourceUnit.isOk_compile (unit : SourceUnit) (session : Session) :
    (unit.compile session).1.isOk = unit.compiles session.library := by
  have told {α : Type} (result : Except Error α) : result.isOk = result.toOption.isSome := by
    cases result <;> rfl
  have mapped (result : Except Error CompiledClass) : (result.map (·.code)).isOk = result.isOk := by
    cases result <;> rfl
  unfold compiles SourceUnit.compile
  cases unit.kind with
  | vm => rfl
  | jack =>
      dsimp only
      rw [mapped, mapped, told, told, session.toOption_compile, Option.isSome_map]
      rfl

/-- The unit is the code of a source. -/
structure CompiledUnit.IsOf (library : Library) (source : SourceUnit) (unit : CompiledUnit) : Prop where
  name : unit.name = source.name
  kind : unit.kind = source.kind
  code : ∃ before : Session, before.library = library ∧ (source.compile before).1 = .ok unit.code

/-- The failure is what a source is refused for. -/
structure Failure.IsOf (library : Library) (source : SourceUnit) (failure : Failure) : Prop where
  name : failure.name = source.name
  error : ∃ before : Session, before.library = library ∧ (source.compile before).1 = .error failure.error

/-- **Units are parted** into those that compile and the others, in order. -/
theorem compileUnits_parted (session : Session) (units : List SourceUnit) :
    List.Forall₂ (CompiledUnit.IsOf session.library) (units.filter (·.compiles session.library))
        (compileUnits session units).1 ∧
      List.Forall₂ (Failure.IsOf session.library) (units.filter (!·.compiles session.library))
        (compileUnits session units).2 := by
  induction units generalizing session with
  | nil => exact ⟨.nil, .nil⟩
  | cons unit rest ih =>
      have own := unit.isOk_compile session
      have behind := ih (unit.compile session).2
      rw [unit.library_compile] at behind
      obtain ⟨compiled, refused⟩ := behind
      rw [compileUnits]
      dsimp only
      cases result : (unit.compile session).1 with
      | ok code =>
          rw [result] at own
          rw [List.filter_cons_of_pos own.symm,
            List.filter_cons_of_neg (by rw [← own]; exact Bool.false_ne_true)]
          exact ⟨.cons ⟨rfl, rfl, session, rfl, result⟩ compiled, refused⟩
      | error error =>
          rw [result] at own
          rw [List.filter_cons_of_neg (by rw [← own]; exact Bool.false_ne_true),
            List.filter_cons_of_pos (by rw [← own]; rfl)]
          exact ⟨compiled, .cons ⟨rfl, session, rfl, result⟩ refused⟩

/-- Units that are refused when they are lowered are some of the units, in order. -/
theorem sublist_failures_lowerUnits (lowering : Lowering) (units : List CompiledUnit) :
    ((lowerUnits lowering units).2.map (·.name)).Sublist (units.map (·.name)) := by
  induction units generalizing lowering with
  | nil => exact .slnil
  | cons unit rest ih =>
      rw [lowerUnits]
      cases lowering.addUnit unit.name unit.code with
      | ok between => exact (ih between).cons _
      | error refusal => exact (ih refusal.reached).cons_cons _

theorem length_failures_lowerUnits_le (lowering : Lowering) (units : List CompiledUnit) :
    (lowerUnits lowering units).2.length ≤ units.length := by
  simpa only [List.length_map] using (sublist_failures_lowerUnits lowering units).length_le

/-! ## Programs -/

namespace Program

/-- The units that compile. -/
def accepted (program : Program) (settings : Settings) : List SourceUnit :=
  program.units.filter (·.compiles settings.library)

/-- The units that do not. -/
def refused (program : Program) (settings : Settings) : List SourceUnit :=
  program.units.filter (!·.compiles settings.library)

/-- What lowering the units that compiled comes to. -/
def lower (program : Program) (settings : Settings) : Lowering × List Failure :=
  lowerUnits (program.opening settings) (program.compile settings).units

/-- **Nothing fails**: no unit when it is compiled, none when it is lowered if assembly is wanted, and not
the assembly if words are. -/
structure Passes (program : Program) (settings : Settings) (emit : Emit) : Prop where
  compiled : program.refused settings = []
  lowered : emit ≠ .vm → (program.lower settings).2 = []
  assembled : emit = .hack → ∃ assembled, Hack.assemble (program.lower settings).1.text = .ok assembled

theorem compile_parted (program : Program) (settings : Settings) :
    List.Forall₂ (CompiledUnit.IsOf settings.library) (program.accepted settings)
        (program.compile settings).units ∧
      List.Forall₂ (Failure.IsOf settings.library) (program.refused settings)
        (program.compile settings).failures :=
  compileUnits_parted { library := settings.library } program.units

/-- Without failures all units compile. -/
theorem failures_compile_eq_nil_iff (program : Program) (settings : Settings) :
    (program.compile settings).failures = [] ↔ program.refused settings = [] := by
  have refused := (program.compile_parted settings).2
  constructor
  · intro none
    rw [none] at refused
    exact List.forall₂_nil_right_iff.mp refused
  · intro all
    rw [all] at refused
    exact List.forall₂_nil_left_iff.mp refused

end Program

/-- **Gated products.**  What a product holds, by what has failed. -/
structure Product.IsGated (program : Program) (settings : Settings) (emit : Emit) (product : Product) :
    Prop where
  /-- Every unit that compiles has its code, whatever becomes of the others. -/
  units : List.Forall₂ (CompiledUnit.IsOf settings.library) (program.accepted settings) product.units
  succeeded : product.failures = [] ↔ program.Passes settings emit
  /-- The units that do not compile are the only failures, if there are some. -/
  refused : program.refused settings ≠ [] →
    List.Forall₂ (Failure.IsOf settings.library) (program.refused settings) product.failures
  /-- Otherwise units are refused when they are lowered, or else the assembly is. -/
  later : program.refused settings = [] → product.failures ≠ [] →
    product.failures = (program.lower settings).2 ∨
      (program.lower settings).2 = [] ∧ ∃ error, product.failures = [⟨program.name, error⟩] ∧
        Hack.assemble (program.lower settings).1.text = .error error
  asm : product.asm.isSome ↔ emit ≠ .vm ∧ program.Passes settings emit
  hack : product.hack.isSome ↔ emit = .hack ∧ program.Passes settings emit
  /-- The words are those of the assembly. -/
  words : ∀ words, product.hack = some words →
    ∃ text assembled, product.asm = some text ∧ Hack.assemble text = .ok assembled ∧ words = assembled.text

/-- **The product of a program** is gated. -/
theorem Program.process_gated (program : Program) (settings : Settings) (emit : Emit) :
    (program.process settings emit).IsGated program settings emit := by
  obtain ⟨units, failures⟩ := program.compile_parted settings
  have compiles := program.failures_compile_eq_nil_iff settings
  -- without assembly the artifacts are gated, if the program has not passed
  have without (stopped : emit ≠ .vm → ¬program.Passes settings emit) :
      ((none : Option String).isSome ↔ emit ≠ .vm ∧ program.Passes settings emit) ∧
        ((none : Option String).isSome ↔ emit = .hack ∧ program.Passes settings emit) := by
    refine ⟨⟨nofun, fun ⟨wanted, passes⟩ => absurd passes (stopped wanted)⟩, nofun, ?_⟩
    rintro ⟨rfl, passes⟩
    exact absurd passes (stopped nofun)
  generalize ended : program.process settings emit = product
  cases ended ▸ program.outcome settings emit with
  | compiled stops =>
      obtain ⟨asm, hack⟩ := without fun wanted passes =>
        stops.elim wanted fun some => some (compiles.mpr passes.compiled)
      refine {
        units, asm, hack
        succeeded := ⟨fun none => ?_, fun passes => compiles.mpr passes.compiled⟩
        refused := fun _ => failures
        later := fun all some => absurd (compiles.mpr all) some
        words := nofun }
      obtain rfl := stops.resolve_right fun some => some none
      exact ⟨compiles.mp none, fun other => absurd rfl other, nofun⟩
  | unlowered wanted compiled refused some =>
      have lowered : (program.lower settings).2 = _ := congrArg Prod.snd refused
      have stopped : ¬program.Passes settings emit :=
        fun passes => some (lowered.symm.trans (passes.lowered wanted))
      obtain ⟨asm, hack⟩ := without fun _ => stopped
      exact {
        units, asm, hack
        succeeded := ⟨fun none => absurd none some, fun passes => absurd passes stopped⟩
        refused := fun other => absurd (compiles.mp compiled) other
        later := fun _ _ => .inl lowered.symm
        words := nofun }
  | unassembled compiled lowered refused =>
      have noneRefused : (program.lower settings).2 = [] := congrArg Prod.snd lowered
      have text : (program.lower settings).1.text = _ := congrArg (·.1.text) lowered
      rw [← text] at refused
      have stopped : ¬program.Passes settings .hack := by
        intro passes
        obtain ⟨assembled, accepted⟩ := passes.assembled rfl
        exact absurd (accepted.symm.trans refused) nofun
      obtain ⟨asm, hack⟩ := without fun _ => stopped
      exact {
        units, asm, hack
        succeeded := ⟨nofun, fun passes => absurd passes stopped⟩
        refused := fun other => absurd (compiles.mp compiled) other
        later := fun _ _ => .inr ⟨noneRefused, _, rfl, refused⟩
        words := nofun }
  | lowered compiled lowered =>
      have passes : program.Passes settings .asm :=
        ⟨compiles.mp compiled, fun _ => congrArg Prod.snd lowered, nofun⟩
      exact {
        units
        succeeded := ⟨fun _ => passes, fun _ => compiled⟩
        refused := fun other => absurd passes.compiled other
        later := fun _ some => absurd compiled some
        asm := ⟨fun _ => ⟨nofun, passes⟩, fun _ => rfl⟩
        hack := ⟨nofun, fun both => absurd both.1 nofun⟩
        words := nofun }
  | assembled compiled lowered accepted =>
      have text : (program.lower settings).1.text = _ := congrArg (·.1.text) lowered
      have passes : program.Passes settings .hack :=
        ⟨compiles.mp compiled, fun _ => congrArg Prod.snd lowered, fun _ => ⟨_, text ▸ accepted⟩⟩
      exact {
        units
        succeeded := ⟨fun _ => passes, fun _ => compiled⟩
        refused := fun other => absurd passes.compiled other
        later := fun _ some => absurd compiled some
        asm := ⟨fun _ => ⟨nofun, passes⟩, fun _ => rfl⟩
        hack := ⟨fun _ => ⟨rfl, passes⟩, fun _ => rfl⟩
        words := fun words same => ⟨_, _, rfl, accepted, (Option.some.inj same).symm⟩ }

/-- **There are no more failures than units.** -/
theorem Product.IsGated.length_failures_le {program : Program} {settings : Settings} {emit : Emit}
    {product : Product} (gated : product.IsGated program settings emit) (nonempty : program.units ≠ []) :
    product.failures.length ≤ program.units.length := by
  by_cases all : program.refused settings = []
  · by_cases none : product.failures = []
    · rw [none]
      exact Nat.zero_le _
    · rcases gated.later all none with same | ⟨-, error, same, -⟩
      · rw [same]
        calc
          (program.lower settings).2.length ≤ (program.compile settings).units.length :=
            length_failures_lowerUnits_le _ _
          _ = (program.accepted settings).length := (program.compile_parted settings).1.length_eq.symm
          _ ≤ program.units.length := List.length_filter_le _ _
      · rw [same]
        exact List.length_pos_iff.mpr nonempty
  · rw [← (gated.refused all).length_eq]
    exact List.length_filter_le _ _

end JackToolchain

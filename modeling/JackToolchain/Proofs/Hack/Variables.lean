import JackToolchain.Proofs.Hack.Acceptance

/-!
# Variables

Names in address instructions that are neither predefined nor labels get cells of their own.

## Main Definitions

* `Encoding.Allocates` — what the second pass has done to the symbols that the first one left.
* `IsVariable` — a name that a text neither declares nor finds predefined.

## Main Statements

* `Encoding.Allocates.address`, `Encoding.Allocates.run` — the second pass only adds symbols, and gives
  each a cell of its own.
* `bound_of_used` — whatever an assembled text names has a value.
* `variable_within`, `variables_apart` — the cells of variables lie between the registers and the screen,
  and no two variables share one.
-/

namespace JackToolchain.Hack

open Text

/-! ## The second pass -/

/-- **Allocation.**  Known symbols keep their values; any other has a cell of its own among those that have
been given out, which lie between the registers and the screen. -/
structure Encoding.Allocates (encoding : Encoding) (known : Symbols) : Prop where
  kept : ∀ {name : String} {value : Nat}, known[name]? = some value →
    encoding.symbols[name]? = some value
  within : ∀ {name : String} {value : Nat}, known[name]? = none →
    encoding.symbols[name]? = some value → firstVariable ≤ value ∧ value < encoding.nextVariable
  apart : ∀ {name other : String} {value : Nat}, known[name]? = none → known[other]? = none →
    encoding.symbols[name]? = some value → encoding.symbols[other]? = some value → name = other
  ordered : firstVariable ≤ encoding.nextVariable
  below : encoding.nextVariable ≤ screen

/-- Symbols that are only added to. -/
def Extends (symbols more : Symbols) : Prop :=
  ∀ {name : String} {value : Nat}, symbols[name]? = some value → more[name]? = some value

namespace Encoding.Allocates

variable {encoding after : Encoding} {known : Symbols}

/-- In front of the second pass nothing has been given out. -/
theorem initial (known : Symbols) : Allocates { symbols := known } known where
  kept := id
  within unknown bound := absurd (unknown.symm.trans bound) nofun
  apart unknown _ bound := absurd (unknown.symm.trans bound) nofun
  ordered := Nat.le_refl _
  below := show firstVariable ≤ screen by decide

/-- Words do not matter. -/
theorem push (allocates : encoding.Allocates known) (word : Word) :
    (encoding.push word).Allocates known :=
  ⟨allocates.kept, allocates.within, allocates.apart, allocates.ordered, allocates.below⟩

/-- A name that has no value gets the next cell. -/
theorem allocate (allocates : encoding.Allocates known) {fresh : String}
    (unbound : encoding.symbols[fresh]? = none) (room : encoding.nextVariable < screen) :
    Allocates { encoding with
      symbols := encoding.symbols.insert fresh encoding.nextVariable
      nextVariable := encoding.nextVariable + 1 } known := by
  -- the cells given out before lie below the new one
  have older {name : String} {value : Nat} (unknown : known[name]? = none)
      (bound : encoding.symbols[name]? = some value) : value ≠ encoding.nextVariable :=
    (allocates.within unknown bound).2.ne
  refine ⟨fun {name value} bound => ?_, fun {name value} unknown bound => ?_,
    fun {name other value} unknown unknownToo bound boundToo => ?_,
    Nat.le_succ_of_le allocates.ordered, room⟩
  · rw [getElem?_insert_symbol, if_neg]
    · exact allocates.kept bound
    · rintro rfl
      exact absurd (unbound.symm.trans (allocates.kept bound)) nofun
  · rw [getElem?_insert_symbol] at bound
    split at bound
    · obtain rfl := Option.some.inj bound
      exact ⟨allocates.ordered, Nat.lt_succ_self _⟩
    · obtain ⟨least, below⟩ := allocates.within unknown bound
      exact ⟨least, Nat.lt_succ_of_lt below⟩
  · rw [getElem?_insert_symbol] at bound boundToo
    split at bound
    · split at boundToo
      · rename_i first second
        exact first.symm.trans second
      · exact absurd (Option.some.inj bound).symm (older unknownToo boundToo)
    · split at boundToo
      · exact absurd (Option.some.inj boundToo).symm (older unknown bound)
      · exact allocates.apart unknown unknownToo bound boundToo

/-- **An address instruction** that is accepted only adds symbols, and the name in it then has a value. -/
theorem address (allocates : encoding.Allocates known) {target : List Char}
    (accepted : encoding.address target = .ok after) :
    after.Allocates known ∧ Extends encoding.symbols after.symbols ∧
      ∀ name ∈ (SourceLine.address target).used?, after.symbols[name]?.isSome := by
  rw [Encoding.address] at accepted
  rw [SourceLine.used?]
  split at accepted
  · -- a number
    rename_i digit
    rw [if_pos digit]
    split at accepted
    · obtain rfl := Except.ok.inj accepted
      exact ⟨allocates.push _, id, by rintro _ ⟨⟩⟩
    · cases accepted
  · rename_i noDigit
    rw [if_neg noDigit]
    split at accepted
    · -- a name that has a value
      rename_i value bound
      obtain rfl := Except.ok.inj accepted
      refine ⟨allocates.push _, id, ?_⟩
      rintro _ ⟨⟩
      exact Option.isSome_of_eq_some bound
    · -- a name without a value
      rename_i unbound
      split at accepted
      · cases accepted
      · split at accepted
        · rename_i room
          obtain rfl := Except.ok.inj accepted
          refine ⟨(allocates.push _).allocate unbound room, fun {name value} bound => ?_, ?_⟩
          · rw [getElem?_insert_symbol, if_neg]
            · exact bound
            · rintro rfl
              cases unbound.symm.trans bound
          · rintro _ ⟨⟩
            rw [getElem?_insert_symbol, if_pos rfl]
            rfl
        · cases accepted

/-- **A line** that is accepted. -/
theorem step (allocates : encoding.Allocates known) {line : Nat} {content : SourceLine}
    (accepted : encoding.step (line, content) = .ok after) :
    after.Allocates known ∧ Extends encoding.symbols after.symbols ∧
      ∀ name ∈ content.used?, after.symbols[name]?.isSome := by
  cases content with
  | label name =>
      obtain rfl := Except.ok.inj accepted
      exact ⟨allocates, id, by rintro _ ⟨⟩⟩
  | address target => exact allocates.address (mapError_eq_ok accepted)
  | compute text =>
      rw [Encoding.step] at accepted
      split at accepted
      · obtain rfl := Except.ok.inj accepted
        exact ⟨allocates.push _, id, by rintro _ ⟨⟩⟩
      · cases accepted

/-- **The second pass** gives every name in an address instruction a value. -/
theorem run (allocates : encoding.Allocates known) {lines : List (Nat × SourceLine)}
    (ran : lines.foldlM Encoding.step encoding = .ok after) :
    after.Allocates known ∧ Extends encoding.symbols after.symbols ∧
      ∀ content ∈ lines.map (·.2), ∀ name ∈ content.used?, after.symbols[name]?.isSome := by
  induction lines generalizing encoding with
  | nil =>
      obtain rfl := Except.ok.inj ran
      exact ⟨allocates, id, List.forall_mem_nil _⟩
  | cons numbered rest ih =>
      obtain ⟨line, content⟩ := numbered
      obtain ⟨between, stepped, ran⟩ := foldlM_cons_eq_ok ran
      obtain ⟨allocatesBetween, extended, here⟩ := allocates.step stepped
      obtain ⟨allocatesAfter, more, others⟩ := ih allocatesBetween ran
      refine ⟨allocatesAfter, fun bound => more (extended bound), ?_⟩
      refine List.forall_mem_cons.mpr ⟨fun name used => ?_, others⟩
      obtain ⟨value, bound⟩ := Option.isSome_iff_exists.mp (here name used)
      exact Option.isSome_of_eq_some (more bound)

end Encoding.Allocates

/-! ## Assembled texts -/

/-- **Variables** of a text: names that it does not declare and that are not predefined. -/
structure IsVariable (source name : String) : Prop where
  undefined : predefined[name]? = none
  undeclared : name ∉ declaredNames ((sourceLines source).map (·.2))

section Assembled

variable {source : String} {assembled : Assembled}

/-- The symbols of an assembled text: predefined ones, labels, and what has been given out. -/
theorem exists_allocation (ok : assemble source = .ok assembled) :
    ∃ (known : Symbols) (encoding : Encoding),
      encoding.Allocates known ∧ encoding.symbols = assembled.symbols ∧
      (∀ name, known[name]? =
        (predefined[name]?).or (labelPosition? name 0 (sourceLines source))) ∧
      ∀ content ∈ (sourceLines source).map (·.2), ∀ name ∈ content.used?,
        encoding.symbols[name]?.isSome := by
  obtain ⟨layout, encoding, first, second, rfl⟩ := assemble_ok ok
  obtain ⟨allocates, -, used⟩ := (Encoding.Allocates.initial layout.symbols).run second
  exact ⟨layout.symbols, encoding, allocates, rfl, layout_symbols first, used⟩

/-- **Whatever an assembled text names** has a value. -/
theorem bound_of_used (ok : assemble source = .ok assembled) {content : SourceLine}
    (member : content ∈ (sourceLines source).map (·.2)) {name : String}
    (used : content.used? = some name) : ∃ value, assembled.symbols[name]? = some value := by
  obtain ⟨known, encoding, -, same, -, bound⟩ := exists_allocation ok
  rw [← same]
  exact Option.isSome_iff_exists.mp (bound content member name used)

/-- **The cell of a variable** lies between the registers and the screen. -/
theorem variable_within (ok : assemble source = .ok assembled) {name : String} {value : Nat}
    (isVariable : IsVariable source name) (bound : assembled.symbols[name]? = some value) :
    firstVariable ≤ value ∧ value < screen := by
  obtain ⟨known, encoding, allocates, same, inFront, -⟩ := exists_allocation ok
  rw [← same] at bound
  have unknown : known[name]? = none := by
    rw [inFront, isVariable.undefined, labelPosition_eq_none_iff.mpr isVariable.undeclared]
    rfl
  obtain ⟨least, less⟩ := allocates.within unknown bound
  exact ⟨least, less.trans_le allocates.below⟩

/-- No predefined symbol has a value between the registers and the screen. -/
theorem predefined_outside {name : String} {value : Nat} (known : predefined[name]? = some value) :
    value < firstVariable ∨ screen ≤ value := by
  have outside : ∀ symbol ∈ predefinedList, symbol.2 < firstVariable ∨ screen ≤ symbol.2 := by decide
  exact outside _ (mem_predefinedList known)

/-- **No two variables** share a cell, and a variable shares none with what is predefined: another name
with the value of a variable is a label. -/
theorem variables_apart (ok : assemble source = .ok assembled) {name other : String} {value : Nat}
    (isVariable : IsVariable source name) (bound : assembled.symbols[name]? = some value)
    (boundToo : assembled.symbols[other]? = some value) :
    other = name ∨ other ∈ declaredNames ((sourceLines source).map (·.2)) := by
  obtain ⟨least, less⟩ := variable_within ok isVariable bound
  obtain ⟨known, encoding, allocates, same, inFront, -⟩ := exists_allocation ok
  rw [← same] at bound boundToo
  have unknown : known[name]? = none := by
    rw [inFront, isVariable.undefined, labelPosition_eq_none_iff.mpr isVariable.undeclared]
    rfl
  cases knownToo : known[other]? with
  | none => exact .inl (allocates.apart knownToo unknown boundToo bound)
  | some value' =>
      obtain rfl := Option.some.inj ((allocates.kept knownToo).symm.trans boundToo)
      rw [inFront, Option.or_eq_some_iff] at knownToo
      rcases knownToo with defined | ⟨-, declared⟩
      · have outside := predefined_outside defined
        omega
      · refine .inr (of_not_not fun undeclared => ?_)
        exact absurd ((labelPosition_eq_none_iff.mpr undeclared).symm.trans declared) nofun

end Assembled

end JackToolchain.Hack

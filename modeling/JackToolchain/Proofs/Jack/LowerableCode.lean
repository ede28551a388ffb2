import JackToolchain.Proofs.Hack.LabelDeclarations
import JackToolchain.Proofs.Jack.EmittedCode
import JackToolchain.Proofs.Token.Vocabulary

/-!
# Lowerable code

The code of a class that is not too large can be lowered.

## Main Definitions

* `Fitting` — nothing in what is read is too large for an instruction.
* `IsFittingTable` — the same for the cells of a symbol table.

## Main Statements

* `isSymbol_function` — the functions that calls reach have symbols for their names.
* `Emitted.lowerable` — what is emitted from fitting parts of a text can be lowered.
-/

namespace JackToolchain.Jack.Written

open Vm Hack

/-! ## What fits -/

/-- How many arguments a call can pass, besides the object on which it works. -/
def largestCall : Nat := 32761

/-- **What fits.**  The tokens are those of a text, names are declared and strings within the limits, and
no call has too many arguments. -/
structure Fitting (table : Symbol.Table) (tokens : List Token) (names strings : List String)
    (calls : List (Callee × Nat)) : Prop extends Admissible table names strings where
  proper : ∀ token ∈ tokens, token.IsProper
  calls : ∀ call ∈ calls, call.2 ≤ largestCall

/-- **Fitting tables.**  Every cell has an index that is a constant, and every type is a symbol. -/
def IsFittingTable (table : Symbol.Table) : Prop :=
  ∀ name entry, table.lookup? name = some entry →
    entry.index ≤ largestConstant ∧ isSymbol entry.type.toList = true

/-! ## Names -/

theorem isSymbolCharacter_of_isWordPart {c : Char} (part : Lexer.isWordPart c = true) :
    isSymbolCharacter c = true := by
  unfold Lexer.isWordPart at part
  unfold isSymbolCharacter
  rw [Bool.or_assoc, Bool.or_assoc, Bool.or_eq_true]
  exact .inl part

/-- A name is a symbol. -/
theorem isSymbol_of_isName {name : String} (isName : IsName name) : isSymbol name.toList = true := by
  obtain ⟨c, rest, spelled, start⟩ := isName.first
  have noDigit : c.isDigit = false := by
    rw [Bool.eq_false_iff]
    intro digit
    have digits : 48 ≤ c.toNat ∧ c.toNat ≤ 57 := Char.isDigit_iff_toNat.mp digit
    have letters := Lexer.toNat_of_isWordStart start
    omega
  refine isSymbol_iff.mpr ⟨⟨c, by rw [spelled]; rfl, noDigit⟩, fun c member => ?_⟩
  exact isSymbolCharacter_of_isWordPart (isName.parts c member)

theorem characters_of_isName {name : String} (isName : IsName name) :
    ∀ c ∈ name.toList, isSymbolCharacter c = true :=
  isSymbolCharacter_of_isSymbol (isSymbol_of_isName isName)

/-- A qualified name is a symbol. -/
theorem isSymbol_qualifiedName {owner name : String} (symbol : isSymbol owner.toList = true)
    (isName : IsName name) : isSymbol (qualifiedName owner name).toList = true :=
  isSymbol_joined "." symbol (by decide) (characters_of_isName isName)

/-! ## Lists of instructions -/

/-- Every instruction of a code can be lowered. -/
def Lowerable (code : List Instruction) : Prop := ∀ i ∈ code, IsLowerable i

namespace Lowerable

variable {instruction : Instruction} {behind : List Instruction}

theorem cons (first : IsLowerable instruction) (rest : Lowerable behind) :
    Lowerable (instruction :: behind) :=
  List.forall_mem_cons.mpr ⟨first, rest⟩

theorem flatMap {α : Type} {code : α → List Instruction} {list : List α}
    (each : ∀ item ∈ list, Lowerable (code item)) : Lowerable (list.flatMap code) := by
  intro i member
  obtain ⟨item, inList, inCode⟩ := List.mem_flatMap.mp member
  exact each item inList i inCode

end Lowerable

/-! ## Cells -/

/-- A cell outside the pointers and the temporary segment. -/
theorem hasCell_of_ne {segment : Segment} {index : Nat} (small : index ≤ largestConstant)
    (noPointer : segment ≠ .pointer) (noTemporary : segment ≠ .temp) : HasCell segment index :=
  ⟨small, fun same => absurd same noPointer, fun same => absurd same noTemporary⟩

theorem hasCell_constant {value : Nat} (small : value ≤ largestConstant) : HasCell .constant value :=
  hasCell_of_ne small (by decide) (by decide)

theorem hasCell_argument {index : Nat} (small : index ≤ largestConstant) : HasCell .argument index :=
  hasCell_of_ne small (by decide) (by decide)

theorem hasCell_that {index : Nat} (small : index ≤ largestConstant) : HasCell .that index :=
  hasCell_of_ne small (by decide) (by decide)

theorem hasCell_temporary {index : Nat} (small : index < 8) : HasCell .temp index := by
  refine ⟨?_, fun same => absurd same (by decide), fun _ => small⟩
  have limit : 8 ≤ largestConstant := by decide
  omega

theorem hasCell_pointer {index : Nat} (small : index ≤ 1) : HasCell .pointer index :=
  ⟨small.trans (by decide), fun _ => small, fun same => absurd same (by decide)⟩

/-! ## Expressions -/

section Expressions

variable {library : Library} {table : Symbol.Table} {className : String}

/-- The cell of a declared variable can be read and written. -/
theorem hasCell_placeOf (cells : IsFittingTable table) {name : String}
    (declared : table.contains name = true) :
    HasCell (placeOf table name).segment (placeOf table name).index ∧
      (placeOf table name).segment ≠ .constant := by
  obtain ⟨entry, found⟩ := Option.isSome_iff_exists.mp declared
  obtain ⟨small, -⟩ := cells name entry found
  rw [placeOf, found]
  show HasCell entry.kind.segment entry.index ∧ entry.kind.segment ≠ .constant
  have elsewhere : entry.kind.segment ≠ .pointer ∧ entry.kind.segment ≠ .temp ∧
      entry.kind.segment ≠ .constant := by
    cases entry.kind <;> decide
  exact ⟨hasCell_of_ne small elsewhere.1 elsewhere.2.1, elsewhere.2.2⟩

/-- The function that a call reaches has a symbol for its name. -/
theorem isSymbol_function
    (types : ∀ name entry, table.lookup? name = some entry → isSymbol entry.type.toList = true)
    (classSymbol : isSymbol className.toList = true) (callee : Callee)
    (proper : ∀ token ∈ callee.tokens, token.IsProper) :
    isSymbol (callee.function table className).toList = true := by
  cases callee with
  | own name =>
      exact isSymbol_qualifiedName classSymbol (proper (.identifier name) List.mem_cons_self)
  | member owner name =>
      have isName : IsName name := proper (.identifier name) (by simp [Callee.tokens])
      have isOwner : IsName owner := proper (.identifier owner) (by simp [Callee.tokens])
      unfold Callee.function
      dsimp only
      split
      · rename_i entry found
        exact isSymbol_qualifiedName (types owner entry found) isName
      · exact isSymbol_qualifiedName (isSymbol_of_isName isOwner) isName

/-- A call with not too many arguments. -/
theorem frame_small {count : Nat} (receiver : Option Place) (small : count ≤ largestCall) :
    frameSize + counted (count + receiver.toList.length) ≤ largestConstant := by
  have one : receiver.toList.length ≤ 1 := by
    cases receiver with
    | none => exact Nat.zero_le 1
    | some place => exact Nat.le_refl 1
  have limits : frameSize + (largestCall + 1) = largestConstant := rfl
  have few := counted_le_self (count + receiver.toList.length)
  omega

/-- The labels of a number are symbols. -/
theorem isSymbol_of_isLabelOf {number : Nat} {name : String} (isLabel : IsLabelOf number name) :
    isSymbol name.toList = true := by
  rcases isLabel with rfl | rfl | rfl | rfl
  · exact isSymbol_numbered "IF_TRUE" number (by decide)
  · exact isSymbol_numbered "IF_FALSE" number (by decide)
  · exact isSymbol_numbered "WHILE_EXP" number (by decide)
  · exact isSymbol_numbered "WHILE_END" number (by decide)

/-- **Surroundings** in which code is lowered: library routines and the class have symbols for their
names, and the cells of variables fit. -/
structure FittingScope (library : Library) (table : Symbol.Table) (className : String) : Prop where
  names : ∀ name ∈ library.names, isSymbol name.toList = true
  owner : isSymbol className.toList = true
  cells : IsFittingTable table

/-- **What is emitted** from fitting parts of a text can be lowered. -/
theorem Emitted.lowerable {parts : Parts} {instruction : Instruction}
    (emitted : Emitted library table className parts instruction)
    (scope : FittingScope library table className)
    (fitting : Fitting table parts.tokens parts.names parts.strings parts.calls) :
    IsLowerable instruction := by
  cases emitted with
  | integer member => exact hasCell_constant (fitting.proper _ member)
  | zero => exact hasCell_constant (Nat.zero_le _)
  | length member => exact hasCell_constant (fitting.limits _ member).2
  | character member inContent => exact hasCell_constant ((fitting.limits _ member).1 _ inContent)
  | load member => exact (hasCell_placeOf scope.cells (fitting.declared _ member)).1
  | store member => exact hasCell_placeOf scope.cells (fitting.declared _ member)
  | @receiver owner entry found =>
      have declared : table.contains owner = true := by
        rw [Symbol.Table.contains, found]
        rfl
      have cell := (hasCell_placeOf scope.cells declared).1
      rw [placeOf, found] at cell
      exact cell
  | self => exact hasCell_pointer (Nat.zero_le 1)
  | address => exact ⟨hasCell_pointer (Nat.le_refl 1), by decide⟩
  | element => exact hasCell_that (Nat.zero_le _)
  | storeElement => exact ⟨hasCell_that (Nat.zero_le _), by decide⟩
  | restore => exact hasCell_temporary (by decide)
  | scratch => exact ⟨hasCell_temporary (by decide), by decide⟩
  | operate | return_ => trivial
  | library member few =>
      have limit : frameSize + 2 ≤ largestConstant := by decide
      exact ⟨scope.names _ member, (Nat.add_le_add_left few frameSize).trans limit⟩
  | @call callee count spelled member =>
      have types (name : String) (entry : Symbol.Entry) (found : table.lookup? name = some entry) :=
        (scope.cells name entry found).2
      exact ⟨isSymbol_function types scope.owner callee fun token inside =>
        fitting.proper token (spelled inside), frame_small _ (fitting.calls _ member)⟩
  | label isLabel | goto isLabel | ifGoto isLabel =>
      exact isSymbolCharacter_of_isSymbol (isSymbol_of_isLabelOf isLabel)

end Expressions

end JackToolchain.Jack.Written

import JackToolchain.Proofs.Jack.LowerableCode
import JackToolchain.Proofs.Symbol.Cells

/-!
# Limits of classes

The code of a class that is not too large.

## Main Definitions

* `Class.IsModest` — the limits on declarations and calls.
* `Class.qualifiedNames` — the names under which the subroutines of a class are called.

## Main Statements

* `Class.sound_table`, `Subroutine.sound_table` — the symbol tables of a class are sound.
* `Class.numbered_table`, `Subroutine.numbered_table` — they are numbered, if no counter is beyond its bits.
* `Class.lowerable` — the code of a modest class is lowerable.
-/

namespace JackToolchain.Jack.Written

open Hack Vm
open JackToolchain.Symbol (Kind Table)

/-! ## Limits -/

/-- How many variables of one kind can be declared. -/
def largestDeclared : Nat := 32762

/-- **Modest classes.**  Neither the class nor a subroutine declares too many variables of one kind, and no
call passes too many arguments. -/
structure Class.IsModest (cls : Class) : Prop where
  shared : ∀ kind, ((cls.shared.filter fun d => d.kind = kind).flatMap
    (·.group.names)).length ≤ largestDeclared
  parameters : ∀ s ∈ cls.subroutines, s.parameters.length ≤ largestDeclared
  locals : ∀ s ∈ cls.subroutines, s.localCount ≤ largestDeclared
  calls : ∀ s ∈ cls.subroutines, ∀ call ∈ statementCalls s.body, call.2 ≤ largestCall

/-- No counter of a modest class is beyond its bits. -/
theorem Class.IsModest.isCounted {cls : Class} (modest : cls.IsModest) : cls.IsCounted where
  shared kind := (modest.shared kind).trans (by decide)
  arguments s member := by
    have few := modest.parameters s member
    have limits : largestDeclared + 1 ≤ largestCount := by decide
    unfold Subroutine.argumentCount
    split <;> omega
  locals s member := (modest.locals s member).trans (by decide)

/-- The names under which the subroutines of a class are called. -/
def Class.qualifiedNames (cls : Class) : List String :=
  cls.subroutines.map fun s => qualifiedName cls.name s.name

/-! ## Symbol tables -/

/-- A symbol, as the type of a variable. -/
def IsTypeSymbol (type : String) : Prop := isSymbol type.toList = true

/-- The name of a written type is a symbol. -/
theorem isTypeSymbol_text {type : TypeName} (proper : type.token.IsProper) :
    IsTypeSymbol type.text := by
  cases type with
  | int => exact (by decide : isSymbol Keyword.int.text.toList = true)
  | char => exact (by decide : isSymbol Keyword.char.text.toList = true)
  | boolean => exact (by decide : isSymbol Keyword.boolean.text.toList = true)
  | class_ name => exact isSymbol_of_isName proper

section Lists

variable {table : Table}

theorem sound_declared (sound : table.Sound IsTypeSymbol) (kind : Kind) {type : String}
    (typed : IsTypeSymbol type) (names : List String) :
    (declared kind type names table).Sound IsTypeSymbol := by
  unfold declared
  induction names generalizing table with
  | nil => exact sound
  | cons name rest ih => exact ih (sound.define name typed kind)

theorem sound_locals (sound : table.Sound IsTypeSymbol) (kind : Kind) {declarations : List Variables}
    (proper : ∀ d ∈ declarations, d.type.token.IsProper) :
    (declarations.foldl (Variables.declare kind) table).Sound IsTypeSymbol := by
  induction declarations generalizing table with
  | nil => exact sound
  | cons first rest ih =>
      obtain ⟨here, others⟩ := List.forall_mem_cons.mp proper
      exact ih (sound_declared sound kind (isTypeSymbol_text here) _) others

theorem sound_parameters (sound : table.Sound IsTypeSymbol) {parameters : List Parameter}
    (proper : ∀ p ∈ parameters, p.type.token.IsProper) :
    (parameters.foldl Parameter.declare table).Sound IsTypeSymbol := by
  induction parameters generalizing table with
  | nil => exact sound
  | cons first rest ih =>
      obtain ⟨here, others⟩ := List.forall_mem_cons.mp proper
      exact ih (sound.define first.name (isTypeSymbol_text here) .argument) others

theorem sound_classVariables (sound : table.Sound IsTypeSymbol)
    {declarations : List ClassVariables}
    (proper : ∀ d ∈ declarations, d.group.type.token.IsProper) :
    (declarations.foldl ClassVariables.declare table).Sound IsTypeSymbol := by
  induction declarations generalizing table with
  | nil => exact sound
  | cons first rest ih =>
      obtain ⟨here, others⟩ := List.forall_mem_cons.mp proper
      exact ih (sound_declared sound first.kind (isTypeSymbol_text here) _) others

theorem numbered_declared {kind : Kind} {names : List String} (numbered : table.Numbered)
    (room : table.count kind + names.length ≤ largestCount) (type : String) :
    (declared kind type names table).Numbered := by
  unfold declared
  induction names generalizing table with
  | nil => exact numbered
  | cons name rest ih =>
      rw [List.length_cons] at room
      refine ih (numbered.define (by omega) name type) ?_
      rw [Table.count_define, if_pos rfl, counted_of_le (by omega)]
      omega

theorem numbered_locals {kind : Kind} {declarations : List Variables} (numbered : table.Numbered)
    (room : table.count kind + (declarations.flatMap (·.names)).length ≤ largestCount) :
    (declarations.foldl (Variables.declare kind) table).Numbered := by
  induction declarations generalizing table with
  | nil => exact numbered
  | cons first rest ih =>
      rw [List.flatMap_cons, List.length_append] at room
      refine ih (numbered_declared numbered (by omega) first.type.text) ?_
      rw [Variables.declare, count_declared, if_pos rfl, counted_of_le (by omega)]
      omega

theorem numbered_parameters {parameters : List Parameter} (numbered : table.Numbered)
    (room : table.count .argument + parameters.length ≤ largestCount) :
    (parameters.foldl Parameter.declare table).Numbered := by
  induction parameters generalizing table with
  | nil => exact numbered
  | cons first rest ih =>
      rw [List.length_cons] at room
      refine ih (numbered.define (by omega) first.name first.type.text) ?_
      rw [Parameter.declare, Table.count_define, if_pos rfl, counted_of_le (by omega)]
      omega

theorem numbered_classVariables {declarations : List ClassVariables} (numbered : table.Numbered)
    (room : ∀ kind, table.count kind +
      ((declarations.filter fun d => d.kind = kind).flatMap (·.group.names)).length ≤ largestCount) :
    (declarations.foldl ClassVariables.declare table).Numbered := by
  induction declarations generalizing table with
  | nil => exact numbered
  | cons first rest ih =>
      have here := room first.kind
      rw [List.filter_cons_of_pos (by simp), List.flatMap_cons, List.length_append] at here
      refine ih (numbered_declared numbered (by omega) first.group.type.text) fun kind => ?_
      have there := room kind
      rw [ClassVariables.declare, Variables.declare, count_declared]
      split
      · rename_i same
        rw [same] at there ⊢
        rw [List.filter_cons_of_pos (by simp), List.flatMap_cons, List.length_append] at there
        rw [counted_of_le (by omega)]
        omega
      · rename_i other
        rw [List.filter_cons_of_neg (by simpa using Ne.symm other)] at there
        rw [counted_of_le (by omega)]
        omega

end Lists

section Class

variable {cls : Class}

/-- The symbol table of a class is sound. -/
theorem Class.sound_table (proper : ∀ token ∈ cls.tokens, token.IsProper) :
    cls.table.Sound IsTypeSymbol := by
  refine sound_classVariables .empty fun d member => proper _ ?_
  have inDeclaration : d.group.type.token ∈ d.tokens := by
    simp [ClassVariables.tokens, Variables.tokens]
  rw [Class.tokens]
  simp only [List.mem_cons, List.mem_append, List.mem_flatMap]
  exact .inr (.inr (.inr (.inl ⟨d, member, inDeclaration⟩)))

/-- The tokens of a subroutine are tokens of its class. -/
theorem mem_tokens_of_subroutine {subroutine : Subroutine} (member : subroutine ∈ cls.subroutines)
    {token : Token} (inside : token ∈ subroutine.tokens) : token ∈ cls.tokens := by
  rw [Class.tokens]
  simp only [List.mem_cons, List.mem_append, List.mem_flatMap]
  exact .inr (.inr (.inr (.inr (.inl ⟨subroutine, member, inside⟩))))

/-- The name of a class is a name. -/
theorem Class.isName_name (proper : ∀ token ∈ cls.tokens, token.IsProper) : IsName cls.name :=
  proper (.identifier cls.name) (by simp [Class.tokens])

theorem Subroutine.isName_name {subroutine : Subroutine} (member : subroutine ∈ cls.subroutines)
    (proper : ∀ token ∈ cls.tokens, token.IsProper) : IsName subroutine.name :=
  proper (.identifier subroutine.name)
    (mem_tokens_of_subroutine member (by simp [Subroutine.tokens]))

/-- The type of a parameter is spelled among the parameters. -/
theorem type_mem_parameterTokens {parameters : List Parameter} {parameter : Parameter}
    (member : parameter ∈ parameters) : parameter.type.token ∈ parameterTokens parameters := by
  cases parameters with
  | nil => exact absurd member List.not_mem_nil
  | cons first rest =>
      rcases List.mem_cons.mp member with rfl | behind
      · exact List.mem_append_left _ List.mem_cons_self
      · refine List.mem_append_right _ (List.mem_flatMap.mpr ⟨parameter, behind, ?_⟩)
        exact List.mem_cons_of_mem _ List.mem_cons_self

/-- The symbol table of a subroutine is sound. -/
theorem Subroutine.sound_table {subroutine : Subroutine} (member : subroutine ∈ cls.subroutines)
    (proper : ∀ token ∈ cls.tokens, token.IsProper) :
    (subroutine.table cls.name cls.table).Sound IsTypeSymbol := by
  have inside {token : Token} (inSubroutine : token ∈ subroutine.tokens) : token.IsProper :=
    proper token (mem_tokens_of_subroutine member inSubroutine)
  have begun : (outset subroutine.kind cls.name cls.table).Sound IsTypeSymbol := by
    unfold outset
    split
    · exact (Class.sound_table proper).clear.define _
        (isSymbol_of_isName (Class.isName_name proper)) _
    · exact (Class.sound_table proper).clear
  refine sound_locals (sound_parameters begun fun p inParameters => inside ?_) .var
    fun d inLocals => inside ?_
  · rw [Subroutine.tokens]
    simp [type_mem_parameterTokens inParameters]
  · have inDeclaration : d.type.token ∈ subroutine.locals.flatMap
        (fun d => .keyword .var :: d.tokens) :=
      List.mem_flatMap.mpr ⟨d, inLocals, by simp [Variables.tokens]⟩
    rw [Subroutine.tokens]
    simp only [List.mem_cons, List.mem_append]
    exact .inr (.inr (.inr (.inr (.inr (.inr (.inr (.inl inDeclaration)))))))

/-- **The symbol table of a class is numbered**, if no counter is beyond its bits. -/
theorem Class.numbered_table (isCounted : cls.IsCounted) : cls.table.Numbered := by
  refine numbered_classVariables .empty fun kind => ?_
  rw [Table.count_empty, Nat.zero_add]
  exact isCounted.shared kind

/-- **So is the symbol table of a subroutine.** -/
theorem Subroutine.numbered_table (isCounted : cls.IsCounted) {subroutine : Subroutine}
    (member : subroutine ∈ cls.subroutines) :
    (subroutine.table cls.name cls.table).Numbered := by
  have arguments := isCounted.arguments subroutine member
  have locals := isCounted.locals subroutine member
  have cleared : cls.table.clear.Numbered := (Class.numbered_table isCounted).clear
  have begun : (outset subroutine.kind cls.name cls.table).Numbered := by
    unfold outset
    split
    · refine cleared.define ?_ _ _
      rw [Table.count_argument_clear]
      decide
    · exact cleared
  refine numbered_locals (numbered_parameters begun ?_) ?_
  · rw [count_argument_outset, Nat.add_comm]
    exact arguments
  · rw [count_parameters, count_var_outset, if_neg (by decide), counted_zero, Nat.zero_add]
    exact locals

/-- **The cells of a modest class** fit. -/
theorem isFittingTable_of_modest (modest : cls.IsModest) {subroutine : Subroutine}
    (member : subroutine ∈ cls.subroutines) (proper : ∀ token ∈ cls.tokens, token.IsProper) :
    IsFittingTable (subroutine.table cls.name cls.table) := by
  intro name entry found
  have sound := Subroutine.sound_table member proper
  have below := (Subroutine.numbered_table modest.isCounted member).lookup sound found
  refine ⟨?_, (sound.lookup found).2⟩
  have few : (subroutine.table cls.name cls.table).count entry.kind ≤ largestDeclared + 1 := by
    have ofClass (kind : Kind) (inClass : kind.isOfClass = true) :
        (subroutine.table cls.name cls.table).count kind ≤ largestDeclared + 1 := by
      rw [Subroutine.count_table_of_class _ _ _ inClass, Class.table, count_classVariables,
        Table.count_empty, Nat.zero_add]
      exact (counted_le_self _).trans ((modest.shared kind).trans (Nat.le_succ _))
    cases entry.kind with
    | static_ => exact ofClass .static_ rfl
    | field => exact ofClass .field rfl
    | argument =>
        rw [Subroutine.count_argument_table]
        refine (counted_le_self _).trans ?_
        have few := modest.parameters subroutine member
        unfold Subroutine.argumentCount
        split <;> omega
    | var =>
        rw [Subroutine.count_table]
        exact (counted_le_self _).trans ((modest.locals subroutine member).trans (Nat.le_succ _))
  have limits : largestDeclared + 1 ≤ largestConstant := by decide
  omega

/-! ## Code -/

variable {library : Library}

/-- How a subroutine comes by its object. -/
theorem lowerable_prologue (names : ∀ name ∈ library.names, isSymbol name.toList = true)
    (modest : cls.IsModest) (subroutine : Jack.Subroutine) :
    Lowerable (subroutine.prologue library (counted cls.fieldCount)) := by
  have few : counted cls.fieldCount ≤ largestConstant := by
    have shared := modest.shared .field
    rw [Class.fieldCount_eq] at shared
    exact ((counted_le_self _).trans shared).trans (by decide)
  intro i inside
  rcases prologue_cases inside with rfl | ⟨-, rfl⟩ | ⟨-, rfl | rfl⟩
  · exact ⟨hasCell_pointer (Nat.zero_le 1), by decide⟩
  · exact hasCell_argument (Nat.zero_le _)
  · exact hasCell_constant few
  · exact ⟨names _ (by simp [Library.names]), by decide⟩

/-- **The code of a modest class** is lowerable. -/
theorem Class.lowerable (names : ∀ name ∈ library.names, isSymbol name.toList = true)
    (modest : cls.IsModest) (proper : ∀ token ∈ cls.tokens, token.IsProper)
    (declared : cls.Declared) (limits : cls.WithinLimits) (first : Nat) :
    Lowerable ((cls.resolved first).code library) := by
  have admissible := (admissible_iff proper).mpr ⟨declared, limits⟩
  refine .flatMap fun s inClass => ?_
  obtain ⟨subroutine, member, number, rfl⟩ := mem_resolvedSubroutines inClass
  have scope : FittingScope library (subroutine.table cls.name cls.table) cls.name :=
    ⟨names, isSymbol_of_isName (Class.isName_name proper),
      isFittingTable_of_modest modest member proper⟩
  have fitting : Fitting (subroutine.table cls.name cls.table) (statementTokens subroutine.body)
      (statementNames subroutine.body) (statementStrings subroutine.body)
      (statementCalls subroutine.body) :=
    ⟨admissible subroutine member, fun token inside => proper token (mem_tokens_of_body member inside),
      modest.calls subroutine member⟩
  rw [code_eq_bodyCode]
  refine .cons (isSymbol_qualifiedName scope.owner (Subroutine.isName_name member proper)) ?_
  intro i inBody
  rcases bodyCode_cases inBody with inPrologue | emitted
  · exact lowerable_prologue names modest _ i inPrologue
  · exact emitted.lowerable scope fitting

end Class

end JackToolchain.Jack.Written

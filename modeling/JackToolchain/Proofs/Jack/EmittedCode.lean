import JackToolchain.Proofs.Jack.Grammar
import JackToolchain.Proofs.Jack.Labels

/-!
# Emitted code

Of which instructions the code of expressions and statements consists, and what in the text each of them
comes from.

## Main Definitions

* `Emitted` — an instruction that comes from given tokens, variables, string constants and calls.

## Main Statements

* `Emitted.mono` — more of a text emits more.
* `Expression.emits`, `emits_statements` — the code of expressions and statements is emitted from what
  stands in them.
* `bodyCode_cases`, `prologue_cases` — so is the body of a subroutine, besides its beginning.

## Design Notes

Nothing is assumed about the text: a name that is not declared still has a place, which no instruction can
use.  What is known of declared names, of limits and of spellings is put in afterwards, once for every
shape of instruction.
-/

namespace JackToolchain

/-- The names of the library routines. -/
def Library.names (library : Library) : List String :=
  [library.allocator, library.multiply, library.divide, library.newString, library.appendCharacter,
    library.entry]

end JackToolchain

namespace JackToolchain.Jack.Written

open Vm Hack

/-! ## Parts of a text -/

/-- What stands in a part of a text. -/
structure Parts where
  tokens : List Token
  /-- The names that are used as variables. -/
  names : List String
  strings : List String
  calls : List (Callee × Nat)

/-- A part of a part. -/
structure Parts.Within (few many : Parts) : Prop where
  tokens : few.tokens ⊆ many.tokens
  names : few.names ⊆ many.names
  strings : few.strings ⊆ many.strings
  calls : few.calls ⊆ many.calls

/-- A part that stands in front of another… -/
theorem Parts.Within.front {few many : Parts} {names strings : List String} {calls : List (Callee × Nat)}
    (tokens : few.tokens ⊆ many.tokens) (inNames : many.names = few.names ++ names)
    (inStrings : many.strings = few.strings ++ strings) (inCalls : many.calls = few.calls ++ calls) :
    few.Within many where
  tokens := tokens
  names := inNames ▸ List.subset_append_left _ _
  strings := inStrings ▸ List.subset_append_left _ _
  calls := inCalls ▸ List.subset_append_left _ _

/-- …and one that stands behind another. -/
theorem Parts.Within.behind {few many : Parts} {names strings : List String} {calls : List (Callee × Nat)}
    (tokens : few.tokens ⊆ many.tokens) (inNames : many.names = names ++ few.names)
    (inStrings : many.strings = strings ++ few.strings) (inCalls : many.calls = calls ++ few.calls) :
    few.Within many where
  tokens := tokens
  names := inNames ▸ List.subset_append_right _ _
  strings := inStrings ▸ List.subset_append_right _ _
  calls := inCalls ▸ List.subset_append_right _ _

def Term.parts (term : Term) : Parts := ⟨term.tokens, term.names, term.strings, term.calls⟩

def Expression.parts (expression : Expression) : Parts :=
  ⟨expression.tokens, expression.names, expression.strings, expression.calls⟩

def restParts (rest : List (BinaryOperator × Term)) : Parts :=
  ⟨restTokens rest, restNames rest, restStrings rest, restCalls rest⟩

def argumentParts (arguments : List Expression) : Parts :=
  ⟨argumentTokens arguments, argumentNames arguments, argumentStrings arguments,
    argumentCalls arguments⟩

def Statement.parts (statement : Statement) : Parts :=
  ⟨statement.tokens, statement.names, statement.strings, statement.calls⟩

def statementParts (statements : List Statement) : Parts :=
  ⟨statementTokens statements, statementNames statements, statementStrings statements,
    statementCalls statements⟩

/-! ## Emitted instructions -/

section Emitted

variable (library : Library) (table : Symbol.Table) (className : String) (parts : Parts)

/-- **Emitted instructions**, each with what it comes from. -/
inductive Emitted : Instruction → Prop
  /-- An integer constant. -/
  | integer {value : Nat} : .integer value ∈ parts.tokens → Emitted (.push .constant value)
  /-- A value that a reserved word stands for. -/
  | zero : Emitted (.push .constant 0)
  /-- The length of a string constant. -/
  | length {content : String} : content ∈ parts.strings →
      Emitted (.push .constant content.toList.length)
  /-- A character of a string constant. -/
  | character {content : String} {c : Char} : content ∈ parts.strings → c ∈ content.toList →
      Emitted (.push .constant c.toNat)
  /-- The content of a variable. -/
  | load {name : String} : name ∈ parts.names → Emitted (placeOf table name).push
  /-- An assignment to a variable. -/
  | store {name : String} : name ∈ parts.names → Emitted (placeOf table name).pop
  /-- The object to which a variable refers, as it is passed in a call. -/
  | receiver {owner : String} {entry : Symbol.Entry} : table.lookup? owner = some entry →
      Emitted (Place.ofEntry entry).push
  /-- The current object. -/
  | self : Emitted Place.self.push
  /-- The address of an array element. -/
  | address : Emitted (.pop .pointer 1)
  /-- The value of an array element. -/
  | element : Emitted (.push .that 0)
  /-- An assignment to an array element. -/
  | storeElement : Emitted (.pop .that 0)
  /-- A value that was set aside. -/
  | restore : Emitted (.push .temp 0)
  /-- A value that is set aside or forgotten. -/
  | scratch : Emitted (.pop .temp 0)
  | operate (operation : Operation) : Emitted (.operate operation)
  /-- A library routine. -/
  | library {name : String} {count : Nat} : name ∈ library.names → count ≤ 2 →
      Emitted (.call name count)
  /-- A call in the text. -/
  | call {callee : Callee} {arguments : Nat} : callee.tokens ⊆ parts.tokens →
      (callee, arguments) ∈ parts.calls →
      Emitted (.call (callee.function table className)
        (counted (arguments + (callee.receiver table).toList.length)))
  | label {number : Nat} {name : String} : IsLabelOf number name → Emitted (.label name)
  | goto {number : Nat} {name : String} : IsLabelOf number name → Emitted (.goto name)
  | ifGoto {number : Nat} {name : String} : IsLabelOf number name → Emitted (.ifGoto name)
  | return_ : Emitted .return_

/-- Code that is emitted. -/
def Emits (code : List Instruction) : Prop := ∀ i ∈ code, Emitted library table className parts i

end Emitted

section Code

variable {library : Library} {table : Symbol.Table} {className : String} {parts more : Parts}
  {instruction : Instruction} {code front behind : List Instruction}

/-- More of a text emits more. -/
theorem Emitted.mono (emitted : Emitted library table className parts instruction)
    (within : parts.Within more) : Emitted library table className more instruction := by
  cases emitted with
  | integer member => exact .integer (within.tokens member)
  | zero => exact .zero
  | length member => exact .length (within.strings member)
  | character member inContent => exact .character (within.strings member) inContent
  | load member => exact .load (within.names member)
  | store member => exact .store (within.names member)
  | receiver found => exact .receiver found
  | self => exact .self
  | address => exact .address
  | element => exact .element
  | storeElement => exact .storeElement
  | restore => exact .restore
  | scratch => exact .scratch
  | operate operation => exact .operate operation
  | library member few => exact .library member few
  | call spelled member => exact .call (List.Subset.trans spelled within.tokens) (within.calls member)
  | label isLabel => exact .label isLabel
  | goto isLabel => exact .goto isLabel
  | ifGoto isLabel => exact .ifGoto isLabel
  | return_ => exact .return_

namespace Emits

theorem nil : Emits library table className parts [] := List.forall_mem_nil _

theorem cons (first : Emitted library table className parts instruction)
    (rest : Emits library table className parts behind) :
    Emits library table className parts (instruction :: behind) :=
  List.forall_mem_cons.mpr ⟨first, rest⟩

theorem append (first : Emits library table className parts front)
    (second : Emits library table className parts behind) :
    Emits library table className parts (front ++ behind) :=
  List.forall_mem_append.mpr ⟨first, second⟩

theorem flatMap {α : Type} {code : α → List Instruction} {list : List α}
    (each : ∀ item ∈ list, Emits library table className parts (code item)) :
    Emits library table className parts (list.flatMap code) := by
  intro i member
  obtain ⟨item, inList, inCode⟩ := List.mem_flatMap.mp member
  exact each item inList i inCode

theorem mono (emits : Emits library table className parts code) (within : parts.Within more) :
    Emits library table className more code :=
  fun i member => (emits i member).mono within

end Emits

/-! ## Expressions -/

/-- The object on which a call works. -/
theorem emits_receiver (callee : Callee) :
    Emits library table className parts ((callee.receiver table).toList.map Place.push) := by
  cases callee with
  | own name => exact .cons .self .nil
  | member owner name =>
      cases found : table.lookup? owner with
      | none =>
          rw [Callee.receiver, found]
          exact .nil
      | some entry =>
          rw [Callee.receiver, found]
          exact .cons (.receiver found) .nil

/-- An operator between two operands. -/
theorem emitted_operator (operator : BinaryOperator) :
    Emitted library table className parts (operator.instruction library) := by
  cases operator with
  | mul => exact .library (by simp [Library.names]) (Nat.le_refl 2)
  | div => exact .library (by simp [Library.names]) (Nat.le_refl 2)
  | add | sub | and | or | lt | gt | eq => exact .operate _

/-- What the operator stack makes of a chain consists of operators and operands. -/
theorem emits_shunt (waiting : List BinaryOperator) {steps : Steps (List Instruction)}
    (operands : ∀ step ∈ steps, Emits library table className parts step.2) :
    Emits library table className parts (shunt library waiting steps) := by
  have operators (list : List BinaryOperator) :
      Emits library table className parts (list.map (·.instruction library)) :=
    List.forall_mem_map.mpr fun operator _ => emitted_operator operator
  induction steps generalizing waiting with
  | nil => exact operators waiting
  | cons step rest ih =>
      obtain ⟨here, others⟩ := List.forall_mem_cons.mp operands
      exact (operators _).append (here.append (ih _ others))

/-- The arguments behind the first one are spelled like arguments, with a comma in front. -/
theorem argumentTokens_subset (arguments : List Expression) :
    argumentTokens arguments ⊆ furtherTokens arguments := by
  cases arguments with
  | nil => exact List.nil_subset _
  | cons argument rest => exact List.subset_cons_self _ _

variable (library table className)

mutual

/-- The code of an operand. -/
theorem Term.emits (term : Term) :
    Emits library table className term.parts (term.tree.codeBy counted library table className) := by
  cases term with
  | integer value => exact .cons (.integer List.mem_cons_self) .nil
  | string content =>
      have inStrings : content ∈ (Term.string content).parts.strings := List.mem_cons_self
      refine Emits.append (.cons (.length inStrings) (.cons ?_ .nil)) (.flatMap fun c member => ?_)
      · exact .library (by simp [Library.names]) (by decide)
      · exact .cons (.character inStrings member)
          (.cons (.library (by simp [Library.names]) (Nat.le_refl 2)) .nil)
  | true_ => exact .cons .zero (.cons (.operate .not) .nil)
  | false_ => exact .cons .zero .nil
  | null => exact .cons .zero .nil
  | this => exact .cons .self .nil
  | «variable» name => exact .cons (.load List.mem_cons_self) .nil
  | element array index =>
      have within : index.parts.Within (Term.element array index).parts :=
        ⟨List.subset_cons_of_subset _ (List.subset_cons_of_subset _ (List.subset_append_left _ _)),
          List.subset_cons_self _ _, List.Subset.refl _, List.Subset.refl _⟩
      have loaded : Emits library table className (Term.element array index).parts
          [.operate .add, .pop .pointer 1, .push .that 0] :=
        .cons (.operate .add) (.cons .address (.cons .element .nil))
      exact .cons (.load List.mem_cons_self) ((index.emits.mono within).append loaded)
  | call callee arguments =>
      have within : (argumentParts arguments).Within (Term.call callee arguments).parts :=
        ⟨List.subset_append_of_subset_right _ (List.subset_cons_of_subset _
          (List.subset_append_left _ _)), List.Subset.refl _, List.Subset.refl _,
          List.subset_cons_self _ _⟩
      -- the size of the call is counted on the arguments as they are written
      rw [Term.tree, Tree.codeBy, argumentTrees_eq_map, List.length_map, ← argumentTrees_eq_map]
      exact ((emits_receiver callee).append ((emits_arguments arguments).mono within)).append
        (.cons (.call (List.subset_append_left _ _) List.mem_cons_self) .nil)
  | group inner =>
      have within : inner.parts.Within (Term.group inner).parts :=
        ⟨List.subset_cons_of_subset _ (List.subset_append_left _ _), List.Subset.refl _,
          List.Subset.refl _, List.Subset.refl _⟩
      exact inner.emits.mono within
  | unary operator operand =>
      have within : operand.parts.Within (Term.unary operator operand).parts :=
        ⟨List.subset_cons_self _ _, List.Subset.refl _, List.Subset.refl _, List.Subset.refl _⟩
      refine (operand.emits.mono within).append (.cons ?_ .nil)
      cases operator <;> exact .operate _

/-- **The code of an expression.** -/
theorem Expression.emits (expression : Expression) :
    Emits library table className expression.parts (expression.tree.codeBy counted library table className) := by
  cases expression with
  | chain first rest =>
      have front : first.parts.Within (Expression.chain first rest).parts :=
        .front (List.subset_append_left _ _) rfl rfl rfl
      have behind : (restParts rest).Within (Expression.chain first rest).parts :=
        .behind (List.subset_append_right _ _) rfl rfl rfl
      rw [Expression.tree, ← codeBy_ofChain]
      refine (first.emits.mono front).append (emits_shunt [] (List.forall_mem_map.mpr ?_))
      exact fun step member => (emits_rest rest step member).mono behind

/-- The code of the operands behind the first one. -/
theorem emits_rest (rest : List (BinaryOperator × Term)) :
    ∀ step ∈ restTrees rest,
      Emits library table className (restParts rest) (step.2.codeBy counted library table className) := by
  cases rest with
  | nil => exact List.forall_mem_nil _
  | cons step rest =>
      obtain ⟨operator, operand⟩ := step
      have here : operand.parts.Within (restParts ((operator, operand) :: rest)) :=
        .front (List.subset_cons_of_subset _ (List.subset_append_left _ _)) rfl rfl rfl
      have others : (restParts rest).Within (restParts ((operator, operand) :: rest)) :=
        .behind (List.subset_cons_of_subset _ (List.subset_append_right _ _)) rfl rfl rfl
      exact List.forall_mem_cons.mpr ⟨operand.emits.mono here,
        fun step member => (emits_rest rest step member).mono others⟩

/-- The code of the arguments of a call. -/
theorem emits_arguments (arguments : List Expression) :
    Emits library table className (argumentParts arguments)
      (codesBy counted library table className (argumentTrees arguments)) := by
  cases arguments with
  | nil => exact .nil
  | cons argument rest =>
      have here : argument.parts.Within (argumentParts (argument :: rest)) :=
        .front (List.subset_append_left _ _) rfl rfl rfl
      have others : (argumentParts rest).Within (argumentParts (argument :: rest)) :=
        .behind (List.subset_append_of_subset_right _ (argumentTokens_subset rest)) rfl rfl rfl
      exact (argument.emits.mono here).append ((emits_arguments rest).mono others)

end

/-- The code of an expression with its names resolved. -/
theorem emits_resolved (expression : Expression) :
    Emits library table className expression.parts
      ((expression.resolved table className).code library) := by
  rw [code_resolved]
  exact expression.emits library table className

/-! ## Statements -/

variable {library table className}

theorem emits_storeElement : Emits library table className parts storeElement :=
  .cons .scratch (.cons .address (.cons .restore (.cons .storeElement .nil)))

theorem emits_test {number : Nat} {name : String} (isLabel : IsLabelOf number name) :
    Emits library table className parts [.operate .not, .ifGoto name] :=
  .cons (.operate .not) (.cons (.ifGoto isLabel) .nil)

theorem emits_labels {number : Nat} {target name : String} (toTarget : IsLabelOf number target)
    (isLabel : IsLabelOf number name) :
    Emits library table className parts [.goto target, .label name] :=
  .cons (.goto toTarget) (.cons (.label isLabel) .nil)

/-- The code of a branch, from that of its parts. -/
theorem emits_branch {number : Nat} {condition : Expression} {whenTrue whenFalse : List Jack.Statement}
    (tested : Emits library table className parts
      ((condition.resolved table className).code library))
    (one : Emits library table className parts (statementsCode library whenTrue))
    (two : Emits library table className parts (statementsCode library whenFalse)) :
    Emits library table className parts ((Jack.Statement.branch number
      (condition.resolved table className) whenTrue whenFalse).code library) := by
  have isTrue : IsLabelOf number (trueLabel number) := .inl rfl
  have isFalse : IsLabelOf number (falseLabel number) := .inr (.inl rfl)
  rw [Jack.Statement.code_branch]
  exact ((((tested.append (emits_test isTrue)).append one).append
    (emits_labels isFalse isTrue)).append two).append (.cons (.label isFalse) .nil)

variable (library table className)

mutual

/-- The code of a statement. -/
theorem Statement.emits (statement : Statement) (first : Nat) :
    Emits library table className statement.parts
      ((statement.resolved table className first).code library) := by
  -- each case says which parts of the statement its code comes from, and puts the pieces together
  cases statement with
  | assign target value =>
      have within : value.parts.Within (Statement.assign target value).parts :=
        ⟨fun t (h : t ∈ value.tokens) => by simp [Statement.parts, Statement.tokens, h],
          List.subset_cons_self _ _, List.Subset.refl _, List.Subset.refl _⟩
      rw [Statement.resolved, Jack.Statement.code_assign]
      exact ((emits_resolved library table className value).mono within).append
        (.cons (.store List.mem_cons_self) .nil)
  | assignElement array index value =>
      have address : index.parts.Within (Statement.assignElement array index value).parts :=
        ⟨fun t (h : t ∈ index.tokens) => by simp [Statement.parts, Statement.tokens, h],
          List.subset_cons_of_subset _ (List.subset_append_left _ _), List.subset_append_left _ _,
          List.subset_append_left _ _⟩
      have stored : value.parts.Within (Statement.assignElement array index value).parts :=
        .behind (fun t (h : t ∈ value.tokens) => by simp [Statement.parts, Statement.tokens, h])
          (show _ = (array :: index.names) ++ _ from rfl) rfl rfl
      rw [Statement.resolved, Jack.Statement.code_assignElement]
      have target : Emits library table className (Statement.assignElement array index value).parts
          [(placeOf table array).push] := .cons (.load List.mem_cons_self) .nil
      exact (((target.append ((emits_resolved library table className index).mono address)).append
        (.cons (.operate .add) .nil)).append
          ((emits_resolved library table className value).mono stored)).append emits_storeElement
  | branch condition body =>
      have tested : condition.parts.Within (Statement.branch condition body).parts :=
        .front (fun t (h : t ∈ condition.tokens) => by
          simp [Statement.parts, Statement.tokens, conditionTokens, h]) rfl rfl rfl
      have inner : (statementParts body).Within (Statement.branch condition body).parts :=
        .behind (fun t (h : t ∈ statementTokens body) => by
          simp [Statement.parts, Statement.tokens, braced, h]) rfl rfl rfl
      exact emits_branch ((emits_resolved library table className condition).mono tested)
        ((emits_statements body (first + 1)).mono inner) .nil
  | choice condition whenTrue whenFalse =>
      have tested : condition.parts.Within (Statement.choice condition whenTrue whenFalse).parts :=
        .front (fun t (h : t ∈ condition.tokens) => by
          simp [Statement.parts, Statement.tokens, conditionTokens, h]) rfl rfl rfl
      have one : (statementParts whenTrue).Within
          (Statement.choice condition whenTrue whenFalse).parts :=
        ⟨fun t (h : t ∈ statementTokens whenTrue) => by
            simp [Statement.parts, Statement.tokens, braced, h],
          List.subset_append_of_subset_right _ (List.subset_append_left _ _),
          List.subset_append_of_subset_right _ (List.subset_append_left _ _),
          List.subset_append_of_subset_right _ (List.subset_append_left _ _)⟩
      have two : (statementParts whenFalse).Within
          (Statement.choice condition whenTrue whenFalse).parts :=
        ⟨fun t (h : t ∈ statementTokens whenFalse) => by
            simp [Statement.parts, Statement.tokens, braced, h],
          List.subset_append_of_subset_right _ (List.subset_append_right _ _),
          List.subset_append_of_subset_right _ (List.subset_append_right _ _),
          List.subset_append_of_subset_right _ (List.subset_append_right _ _)⟩
      exact emits_branch ((emits_resolved library table className condition).mono tested)
        ((emits_statements whenTrue (first + 1)).mono one) ((emits_statements whenFalse _).mono two)
  | loop condition body =>
      have tested : condition.parts.Within (Statement.loop condition body).parts :=
        .front (fun t (h : t ∈ condition.tokens) => by
          simp [Statement.parts, Statement.tokens, conditionTokens, h]) rfl rfl rfl
      have inner : (statementParts body).Within (Statement.loop condition body).parts :=
        .behind (fun t (h : t ∈ statementTokens body) => by
          simp [Statement.parts, Statement.tokens, braced, h]) rfl rfl rfl
      have top : IsLabelOf first (topLabel first) := .inr (.inr (.inl rfl))
      have exit : IsLabelOf first (exitLabel first) := .inr (.inr (.inr rfl))
      rw [Statement.resolved, Jack.Statement.code_loop]
      have begun : Emits library table className (Statement.loop condition body).parts
          [.label (topLabel first)] := .cons (.label top) .nil
      exact (((begun.append ((emits_resolved library table className condition).mono tested)).append
        (emits_test exit)).append ((emits_statements body (first + 1)).mono inner)).append
          (emits_labels top exit)
  | run callee arguments =>
      have within : (Term.call callee arguments).parts.Within (Statement.run callee arguments).parts :=
        ⟨fun t (h : t ∈ (Term.call callee arguments).tokens) => by
            simp [Statement.parts, Statement.tokens, h],
          List.Subset.refl _, List.Subset.refl _, List.Subset.refl _⟩
      rw [Statement.resolved, Jack.Statement.code_run, code_resolvedCall]
      exact (((Term.call callee arguments).emits library table className).mono within).append
        (.cons .scratch .nil)
  | leave value =>
      cases value with
      | none =>
          rw [Statement.resolved, Option.map_none, Jack.Statement.code_leave_none]
          exact .cons .zero (.cons .return_ .nil)
      | some value =>
          have within : value.parts.Within (Statement.leave (some value)).parts :=
            ⟨fun t (h : t ∈ value.tokens) => by
                simp [Statement.parts, Statement.tokens, resultTokens, h],
              List.Subset.refl _, List.Subset.refl _, List.Subset.refl _⟩
          rw [Statement.resolved, Option.map_some, Jack.Statement.code_leave_some]
          exact ((emits_resolved library table className value).mono within).append
            (.cons .return_ .nil)

/-- **The code of statements.** -/
theorem emits_statements (statements : List Statement) (first : Nat) :
    Emits library table className (statementParts statements)
      (statementsCode library (resolvedStatements table className first statements)) := by
  cases statements with
  | nil => exact .nil
  | cons statement rest =>
      have here : statement.parts.Within (statementParts (statement :: rest)) :=
        .front (List.subset_append_left _ _) rfl rfl rfl
      have others : (statementParts rest).Within (statementParts (statement :: rest)) :=
        .behind (List.subset_append_right _ _) rfl rfl rfl
      rw [resolvedStatements, statementsCode_cons]
      exact ((statement.emits first).mono here).append ((emits_statements rest _).mono others)

end

/-- **How a subroutine comes by its object**: a constructor allocates it, a method receives it. -/
theorem prologue_cases {library : Library} {fields : Nat} {subroutine : Jack.Subroutine}
    {instruction : Instruction}
    (inside : instruction ∈ subroutine.prologue library fields) :
    instruction = setSelf ∨ subroutine.kind = .method ∧ instruction = .push .argument 0 ∨
      subroutine.kind = .constructor_ ∧
        (instruction = .push .constant fields ∨ instruction = .call library.allocator 1) := by
  unfold Jack.Subroutine.prologue at inside
  cases kind : subroutine.kind with
  | constructor_ =>
      rw [kind] at inside
      simp only [List.mem_cons, List.not_mem_nil, or_false] at inside
      rcases inside with allocated | called | set
      · exact .inr (.inr ⟨rfl, .inl allocated⟩)
      · exact .inr (.inr ⟨rfl, .inr called⟩)
      · exact .inl set
  | function =>
      rw [kind] at inside
      exact absurd inside List.not_mem_nil
  | method =>
      rw [kind] at inside
      simp only [List.mem_cons, List.not_mem_nil, or_false] at inside
      rcases inside with received | set
      · exact .inr (.inl ⟨rfl, received⟩)
      · exact .inl set

/-- What is returned at the end of a body. -/
theorem emits_epilogue (subroutine : Jack.Subroutine) :
    Emits library table className parts subroutine.epilogue := by
  unfold Jack.Subroutine.epilogue
  cases subroutine.kind with
  | constructor_ => exact .cons .self (.cons .return_ .nil)
  | function | method =>
      dsimp only
      split
      · exact .cons .zero (.cons .return_ .nil)
      · exact .nil

variable {library table className}

/-- **The body of a subroutine** is emitted from what stands in it, besides its beginning. -/
theorem bodyCode_cases {ofClass : Symbol.Table} {subroutine : Subroutine} {number fields : Nat}
    (inside : instruction ∈ bodyCode library fields (subroutine.resolved className ofClass number)) :
    instruction ∈ (subroutine.resolved className ofClass number).prologue library fields ∨
      Emitted library (subroutine.table className ofClass) className (statementParts subroutine.body)
        instruction := by
  rcases List.mem_append.mp inside with inFront | inEpilogue
  · rcases List.mem_append.mp inFront with inPrologue | inStatements
    · exact .inl inPrologue
    · exact .inr (emits_statements library _ className subroutine.body number _ inStatements)
  · exact .inr (emits_epilogue library _ className _ _ inEpilogue)

end Code

end JackToolchain.Jack.Written

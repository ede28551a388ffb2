import JackToolchain.Proofs.Jack.Precedence
import JackToolchain.Proofs.Jack.Reading

/-!
# Compiling expressions

Every token list that spells an expression of the grammar is read to its end, and the code of what
is read is the post-order code of the expression's tree, as long as calls say how many operands they pass.

## Main Definitions

* `Delimited` — what the surroundings of an expression put behind it.
* `Admissible` — what a reader is promised: declared variables, string constants within bounds.
* `zeros` — a call with a given number of arguments.

## Main Statements

* `read_term`, `read_expression`, `read_rest`, `read_arguments`, `read_further` — a parser in front of
  the tokens of a derivation returns the derivation with its names resolved and stops behind them.
* `value_compiles_to_tree_code` — reading and code generation together.
* `long_call_forgets_arguments` — where a call has one argument more than a counter shows, its code is another one.

## Design Notes

Reading follows the derivation, so the proofs are by recursion on the written expression.  The budget
of a parser stays above the number of unread tokens: a nested operand has a token in front of it that
is already read, and every item of a repetition has a token of its own.  `readingBudget`, with which
the reading of a class begins, is above the number of all its tokens.
-/

namespace JackToolchain.Jack.Written

open JackToolchain.Jack.Parser
open Vm (Instruction)

/-! ## What may follow -/

/-- What follows an operand: no token that would continue a name. -/
def EndsTerm (rest : List Located) : Prop :=
  ∀ located ∈ rest.head?, ∀ c ∈ ['[', '(', '.'], located.token ≠ .symbol c

/-- What follows an expression: no token that would continue an operand or the chain. -/
structure EndsExpression (rest : List Located) : Prop where
  term : EndsTerm rest
  chain : ∀ located ∈ rest.head?, ∀ operator : BinaryOperator,
    located.token ≠ .symbol operator.symbol

/-- What the surroundings of an expression put behind it: nothing, a closing bracket, a semicolon or a
comma. -/
def Delimited (rest : List Located) : Prop :=
  ∀ located ∈ rest.head?, ∃ c ∈ [')', ']', ';', ','], located.token = .symbol c

/-- A token that closes an expression delimits it. -/
theorem delimited_cons {located : Located} {c : Char} (same : located.token = .symbol c)
    (closes : c ∈ [')', ']', ';', ',']) (rest : List Located) : Delimited (located :: rest) := by
  rintro other ⟨⟩
  exact ⟨c, closes, same⟩

/-- An operator ends the operand in front of it. -/
theorem endsTerm_cons {located : Located} {operator : BinaryOperator}
    (same : located.token = .symbol operator.symbol) (rest : List Located) :
    EndsTerm (located :: rest) := by
  rintro other ⟨⟩ c continues
  rw [same]
  rintro ⟨⟩
  revert continues
  cases operator <;> decide

theorem Delimited.endsExpression {rest : List Located} (delimited : Delimited rest) :
    EndsExpression rest := by
  constructor
  · intro located member c continues
    obtain ⟨delimiter, closes, same⟩ := delimited located member
    rw [same]
    rintro ⟨⟩
    revert continues closes
    simp only [List.mem_cons, List.not_mem_nil]
    rintro (rfl | rfl | rfl | ⟨⟨⟩⟩) <;> decide
  · intro located member operator
    obtain ⟨delimiter, closes, same⟩ := delimited located member
    rw [same]
    rintro ⟨⟩
    revert closes
    cases operator <;> decide

/-! ## First tokens -/

/-- An operand begins with a token that closes nothing. -/
theorem Term.tokens_cons (term : Term) :
    ∃ head tail, term.tokens = head :: tail ∧ ∀ c ∈ [')', ']', ';', ','], head ≠ .symbol c := by
  cases term with
  | call callee arguments =>
      cases callee <;> exact ⟨_, _, rfl, by simp⟩
  | unary operator operand =>
      refine ⟨_, _, rfl, ?_⟩
      cases operator <;> simp [UnaryOperator.symbol]
  | _ => exact ⟨_, _, rfl, by simp⟩

/-- …and so does an expression. -/
theorem Expression.tokens_cons (expression : Expression) :
    ∃ head tail, expression.tokens = head :: tail ∧
      ∀ c ∈ [')', ']', ';', ','], head ≠ .symbol c := by
  cases expression with
  | chain first steps =>
      obtain ⟨head, tail, same, opens⟩ := first.tokens_cons
      refine ⟨head, tail ++ restTokens steps, ?_, opens⟩
      rw [Expression.tokens, same, List.cons_append]

/-- Every step of a chain has a token of its own. -/
theorem length_le_restTokens (steps : List (BinaryOperator × Term)) :
    steps.length ≤ (restTokens steps).length := by
  induction steps with
  | nil => exact Nat.le_refl 0
  | cons step rest ih =>
      obtain ⟨operator, operand⟩ := step
      simp only [restTokens, List.length_cons, List.length_append]
      omega

/-- Every argument behind the first one has a comma of its own. -/
theorem length_le_furtherTokens (arguments : List Expression) :
    arguments.length ≤ (furtherTokens arguments).length := by
  induction arguments with
  | nil => exact Nat.le_refl 0
  | cons argument rest ih =>
      simp only [furtherTokens, List.length_cons, List.length_append]
      omega

/-! ## What a reader is promised -/

/-- The variables are declared and the strings are within bounds. -/
structure Admissible (table : Symbol.Table) (names strings : List String) : Prop where
  declared : ∀ name ∈ names, table.contains name = true
  limits : ∀ content ∈ strings, WithinLimits content

theorem Admissible.mono {table : Symbol.Table} {names strings fewerNames fewerStrings :
    List String} (admissible : Admissible table names strings)
    (inNames : fewerNames ⊆ names) (inStrings : fewerStrings ⊆ strings) :
    Admissible table fewerNames fewerStrings where
  declared name member := admissible.declared name (inNames member)
  limits content member := admissible.limits content (inStrings member)

/-! ## Leaves -/

theorem run_place_placeOf {state : State} {name : String} {rest : List Located}
    (declared : state.table.contains name = true) :
    (place name).run (state.reading rest) =
      .ok (placeOf state.table name) (state.reading rest) := by
  obtain ⟨entry, found⟩ := Option.isSome_iff_exists.mp declared
  rw [run_place (state.reading rest) found, placeOf, found]
  rfl

/-- A string constant within the limits is read. -/
theorem run_stringConstant {state : State} {content : String} {located : Located}
    {rest : List Located} (limits : WithinLimits content) :
    (stringConstant content).run (state.reading (located :: rest)) =
      .ok (.string content.toList) (state.reading rest) := by
  have narrow : content.toList.find? (!isNarrow ·) = none := by
    rw [List.find?_eq_none]
    intro c member
    have bound : c.toNat ≤ largestConstant := limits.1 c member
    rw [isNarrow, decide_eq_true bound]
    decide
  have short : content.toList.length ≤ largestConstant := limits.2
  rw [stringConstant, narrow]
  dsimp only
  rw [if_pos short]
  exact run_bind_ok (run_advance state)

/-- What a call names is read up to the parenthesis. -/
theorem run_callee (callee : Callee) {tokens rest : List Located} {opening : Located}
    {state : State} (spelled : tokens.map (·.token) = callee.tokens)
    (opens : opening.token = .symbol '(') :
    Parser.callee.run (state.reading (tokens ++ opening :: rest)) =
      .ok (callee.function state.table state.className, callee.receiver state.table)
        (state.reading (opening :: rest)) := by
  cases callee with
  | own name =>
      obtain ⟨located, rfl, same⟩ := List.map_eq_singleton_iff.mp spelled
      rw [List.singleton_append, Parser.callee, run_bind_ok (run_identifier state same),
        run_bind_ok (run_eatSymbol_miss state opens (by decide))]
      rfl
  | member owner name =>
      obtain ⟨first, more, rfl, sameFirst, spelled⟩ := List.map_eq_cons_iff.mp spelled
      obtain ⟨dot, more, rfl, sameDot, spelled⟩ := List.map_eq_cons_iff.mp spelled
      obtain ⟨second, rfl, sameSecond⟩ := List.map_eq_singleton_iff.mp spelled
      rw [List.cons_append, List.cons_append, List.singleton_append, Parser.callee,
        run_bind_ok (run_identifier state sameFirst), run_bind_ok (run_eatSymbol_hit state sameDot),
        if_pos rfl, run_bind_ok (run_identifier state sameSecond), run_bind_ok (run_lookup? _ owner),
        Callee.function, Callee.receiver]
      cases found : state.table.lookup? owner with
      | none =>
          simp only [State.reading_table, found]
          rfl
      | some entry =>
          simp only [State.reading_table, found]
          rfl

/-- The token behind a name does not continue it. -/
theorem EndsTerm.peek_ne {rest : List Located} (ends : EndsTerm rest) (located : Located) {c : Char}
    (continues : c ∈ ['[', '(', '.']) :
    (located :: rest)[1]?.map (·.token) ≠ some (.symbol c) := by
  rw [List.getElem?_cons_succ, ← List.head?_eq_getElem?]
  intro found
  obtain ⟨next, member, same⟩ := Option.map_eq_some_iff.mp found
  exact ends next member c continues same

/-- Where a chain ends, no operation follows. -/
theorem run_operation_none {rest : List Located} {state : State} (ends : EndsExpression rest)
    (term : Parser Jack.Term) :
    (operation term).run (state.reading rest) = .ok none (state.reading rest) := by
  rw [operation, run_bind_ok (run_peek? state)]
  split
  · rename_i c found
    obtain ⟨located, member, same⟩ := Option.map_eq_some_iff.mp found
    split
    · rename_i operator isOperator
      refine absurd ?_ (ends.chain located member operator)
      rw [same, BinaryOperator.symbol_of_ofSymbol? isOperator]
    · rfl
  · rfl

/-- Behind an operand of a chain, an operator follows or the end of the chain. -/
theorem endsTerm_restTokens {steps : List (BinaryOperator × Term)} {tokens rest : List Located}
    (spelled : tokens.map (·.token) = restTokens steps) (ends : EndsExpression rest) :
    EndsTerm (tokens ++ rest) := by
  cases steps with
  | nil =>
      rw [List.map_eq_nil_iff.mp spelled]
      exact ends.term
  | cons step steps =>
      obtain ⟨sign, behind, rfl, same, -⟩ := List.map_eq_cons_iff.mp spelled
      exact endsTerm_cons same _

/-- Behind an argument, a comma follows or the closing parenthesis. -/
theorem delimited_furtherTokens {arguments : List Expression} {tokens rest : List Located}
    {closing : Located} (spelled : tokens.map (·.token) = furtherTokens arguments)
    (closes : closing.token = .symbol ')') : Delimited (tokens ++ closing :: rest) := by
  cases arguments with
  | nil =>
      rw [List.map_eq_nil_iff.mp spelled]
      exact delimited_cons closes (by decide) rest
  | cons argument arguments =>
      obtain ⟨comma, behind, rfl, same, -⟩ := List.map_eq_cons_iff.mp spelled
      exact delimited_cons same (by decide) _

/-! ## Operands -/

section Operands

variable {state : State} {budget : Nat} {rest : List Located}

/-- A name that nothing continues is a variable. -/
theorem run_variable {located : Located} {name : String}
    (same : located.token = .identifier name) (ends : EndsTerm rest)
    (declared : state.table.contains name = true) :
    (Parser.term (budget + 1)).run (state.reading (located :: rest)) =
      .ok ((Term.variable name).resolved state.table state.className) (state.reading rest) := by
  rw [Parser.term, run_bind_ok (run_peek? state)]
  simp only [List.head?_cons, Option.map_some, same]
  rw [run_bind_ok (run_peekAt? state 1)]
  -- the three ways in which a name could go on are excluded by what ends an operand
  split
  · rename_i found
    exact absurd found (ends.peek_ne located (by decide))
  · rename_i found
    exact absurd found (ends.peek_ne located (by decide))
  · rename_i found
    exact absurd found (ends.peek_ne located (by decide))
  · rw [run_bind_ok (run_advance state), run_bind_ok (run_place_placeOf declared)]
    rfl

/-- A name with an index in brackets is an element. -/
theorem run_element {name bracket closing : Located} {inner : List Located} {array : String}
    {index : Expression} (sameName : name.token = .identifier array)
    (sameBracket : bracket.token = .symbol '[') (sameClosing : closing.token = .symbol ']')
    (declared : state.table.contains array = true)
    (ran : (Parser.expression (Parser.term budget) budget).run
      (state.reading (inner ++ closing :: rest)) =
        .ok (index.resolved state.table state.className) (state.reading (closing :: rest))) :
    (Parser.term (budget + 1)).run (state.reading (name :: bracket :: (inner ++ closing :: rest))) =
      .ok ((Term.element array index).resolved state.table state.className)
        (state.reading rest) := by
  rw [Parser.term, run_bind_ok (run_peek? state)]
  simp only [List.head?_cons, Option.map_some, sameName]
  rw [run_bind_ok (run_peekAt? state 1)]
  simp only [List.getElem?_cons_succ, List.getElem?_cons_zero, Option.map_some, sameBracket]
  rw [run_bind_ok (run_advance state), run_bind_ok (run_advance state),
    run_bind_ok (run_place_placeOf declared), run_bind_ok ran,
    run_bind_ok (run_expectSymbol state sameClosing)]
  rfl

/-- A callee with arguments in parentheses is a call. -/
theorem run_call {callee : Callee} {arguments : List Expression} {front inner : List Located}
    {opening closing : Located} (spelled : front.map (·.token) = callee.tokens)
    (sameOpening : opening.token = .symbol '(') (sameClosing : closing.token = .symbol ')')
    (ran : (Parser.arguments (Parser.expression (Parser.term budget) budget) budget).run
      (state.reading (inner ++ closing :: rest)) =
        .ok (resolvedArguments state.table state.className arguments)
          (state.reading (closing :: rest))) :
    (Parser.term (budget + 1)).run
        (state.reading (front ++ opening :: (inner ++ closing :: rest))) =
      .ok ((Term.call callee arguments).resolved state.table state.className)
        (state.reading rest) := by
  have called : (call (Parser.expression (Parser.term budget) budget) budget).run
      (state.reading (front ++ opening :: (inner ++ closing :: rest))) =
      .ok ⟨callee.function state.table state.className, callee.receiver state.table,
        resolvedArguments state.table state.className arguments⟩ (state.reading rest) := by
    rw [call, run_bind_ok (run_callee callee spelled sameOpening)]
    dsimp only
    rw [run_bind_ok (run_expectSymbol state sameOpening), run_bind_ok ran,
      run_bind_ok (run_expectSymbol state sameClosing)]
    rfl
  -- the second token tells a call from a variable: a parenthesis, or a dot
  cases callee with
  | own name =>
      obtain ⟨located, rfl, same⟩ := List.map_eq_singleton_iff.mp spelled
      rw [Parser.term, run_bind_ok (run_peek? state)]
      simp only [List.singleton_append, List.head?_cons, Option.map_some, same]
      rw [run_bind_ok (run_peekAt? state 1)]
      simp only [List.getElem?_cons_succ, List.getElem?_cons_zero, Option.map_some, sameOpening]
      exact run_bind_ok called
  | member owner name =>
      obtain ⟨first, more, rfl, sameFirst, spelled⟩ := List.map_eq_cons_iff.mp spelled
      obtain ⟨dot, more, rfl, sameDot, spelled⟩ := List.map_eq_cons_iff.mp spelled
      rw [Parser.term, run_bind_ok (run_peek? state)]
      simp only [List.cons_append, List.head?_cons, Option.map_some, sameFirst]
      rw [run_bind_ok (run_peekAt? state 1)]
      simp only [List.getElem?_cons_succ, List.getElem?_cons_zero, Option.map_some, sameDot]
      exact run_bind_ok called

/-- An expression in parentheses is an operand. -/
theorem run_group {opening closing : Located} {inside : List Located} {inner : Expression}
    (sameOpening : opening.token = .symbol '(') (sameClosing : closing.token = .symbol ')')
    (ran : (Parser.expression (Parser.term budget) budget).run
      (state.reading (inside ++ closing :: rest)) =
        .ok (inner.resolved state.table state.className) (state.reading (closing :: rest))) :
    (Parser.term (budget + 1)).run (state.reading (opening :: (inside ++ closing :: rest))) =
      .ok ((Term.group inner).resolved state.table state.className) (state.reading rest) := by
  rw [Parser.term, run_bind_ok (run_peek? state)]
  simp only [List.head?_cons, Option.map_some, sameOpening]
  rw [run_bind_ok (run_advance state), run_bind_ok ran,
    run_bind_ok (run_expectSymbol state sameClosing)]
  rfl

/-- A sign in front of an operand makes an operand. -/
theorem run_unary {sign : Located} {behind : List Located} {operator : UnaryOperator}
    {operand : Term} (sameSign : sign.token = .symbol operator.symbol)
    (ran : (Parser.term budget).run (state.reading (behind ++ rest)) =
      .ok (operand.resolved state.table state.className) (state.reading rest)) :
    (Parser.term (budget + 1)).run (state.reading (sign :: (behind ++ rest))) =
      .ok ((Term.unary operator operand).resolved state.table state.className)
        (state.reading rest) := by
  have reads : (Parser.term (budget + 1)).run (state.reading (sign :: (behind ++ rest))) =
      (do advance; return .unary operator (← Parser.term budget) : Parser Jack.Term).run
        (state.reading (sign :: (behind ++ rest))) := by
    rw [Parser.term, run_bind_ok (run_peek? state)]
    simp only [List.head?_cons, Option.map_some, sameSign]
    cases operator <;> rfl
  rw [reads, run_bind_ok (run_advance state), run_bind_ok ran]
  rfl

end Operands

/-! ## Reading what is spelled -/

mutual

/-- An operand is read up to what does not continue it. -/
theorem read_term (term : Term) {tokens rest : List Located} {state : State} {budget : Nat}
    (spelled : tokens.map (·.token) = term.tokens) (ends : EndsTerm rest)
    (admissible : Admissible state.table term.names term.strings)
    (enough : (tokens ++ rest).length < budget) :
    (Parser.term budget).run (state.reading (tokens ++ rest)) =
      .ok (term.resolved state.table state.className) (state.reading rest) := by
  -- an operand spends one of the budget and at least one token, so the budget stays above the tokens
  obtain ⟨budget, rfl⟩ := Nat.exists_eq_succ_of_ne_zero (Nat.ne_zero_of_lt enough)
  cases term with
  | integer | true_ | false_ | null | this =>
      obtain ⟨located, rfl, same⟩ := List.map_eq_singleton_iff.mp spelled
      rw [List.singleton_append, Parser.term, run_bind_ok (run_peek? state)]
      simp only [List.head?_cons, Option.map_some, same]
      exact run_bind_ok (run_advance state)
  | string content =>
      obtain ⟨located, rfl, same⟩ := List.map_eq_singleton_iff.mp spelled
      rw [List.singleton_append, Parser.term, run_bind_ok (run_peek? state)]
      simp only [List.head?_cons, Option.map_some, same]
      exact run_stringConstant (admissible.limits content List.mem_cons_self)
  | «variable» name =>
      obtain ⟨located, rfl, same⟩ := List.map_eq_singleton_iff.mp spelled
      exact run_variable same ends (admissible.declared name List.mem_cons_self)
  | element array index =>
      obtain ⟨name, more, rfl, sameName, spelled⟩ := List.map_eq_cons_iff.mp spelled
      obtain ⟨bracket, more, rfl, sameBracket, spelled⟩ := List.map_eq_cons_iff.mp spelled
      obtain ⟨inner, closing, rfl, spelledInner, spelledClosing⟩ := List.map_eq_append_iff.mp spelled
      obtain ⟨closing, rfl, sameClosing⟩ := List.map_eq_singleton_iff.mp spelledClosing
      simp only [List.cons_append, List.append_assoc, List.nil_append, List.length_cons,
        List.length_append] at enough ⊢
      apply run_element sameName sameBracket sameClosing
        (admissible.declared array List.mem_cons_self)
      apply read_expression index spelledInner
      · exact (delimited_cons sameClosing (by decide) rest).endsExpression
      · exact admissible.mono (List.subset_cons_self _ _) (List.Subset.refl _)
      · simp only [List.length_cons, List.length_append]
        omega
  | call callee arguments =>
      obtain ⟨front, more, rfl, spelledCallee, spelled⟩ := List.map_eq_append_iff.mp spelled
      obtain ⟨opening, more, rfl, sameOpening, spelled⟩ := List.map_eq_cons_iff.mp spelled
      obtain ⟨inner, closing, rfl, spelledInner, spelledClosing⟩ := List.map_eq_append_iff.mp spelled
      obtain ⟨closing, rfl, sameClosing⟩ := List.map_eq_singleton_iff.mp spelledClosing
      simp only [List.cons_append, List.append_assoc, List.nil_append, List.length_cons,
        List.length_append] at enough ⊢
      apply run_call spelledCallee sameOpening sameClosing
      apply read_arguments arguments spelledInner sameClosing admissible
      simp only [List.length_cons, List.length_append]
      omega
  | group inner =>
      obtain ⟨opening, more, rfl, sameOpening, spelled⟩ := List.map_eq_cons_iff.mp spelled
      obtain ⟨inside, closing, rfl, spelledInner, spelledClosing⟩ :=
        List.map_eq_append_iff.mp spelled
      obtain ⟨closing, rfl, sameClosing⟩ := List.map_eq_singleton_iff.mp spelledClosing
      simp only [List.cons_append, List.append_assoc, List.nil_append, List.length_cons,
        List.length_append] at enough ⊢
      apply run_group sameOpening sameClosing
      apply read_expression inner spelledInner
      · exact (delimited_cons sameClosing (by decide) rest).endsExpression
      · exact admissible
      · simp only [List.length_cons, List.length_append]
        omega
  | unary operator operand =>
      obtain ⟨sign, behind, rfl, sameSign, spelled⟩ := List.map_eq_cons_iff.mp spelled
      rw [List.cons_append]
      apply run_unary sameSign
      apply read_term operand spelled ends admissible
      simp only [List.cons_append, List.length_cons] at enough
      omega

/-- An expression is read up to what does not continue it. -/
theorem read_expression (expression : Expression) {tokens rest : List Located} {state : State}
    {budget : Nat} (spelled : tokens.map (·.token) = expression.tokens)
    (ends : EndsExpression rest)
    (admissible : Admissible state.table expression.names expression.strings)
    (enough : (tokens ++ rest).length < budget) :
    (Parser.expression (Parser.term budget) budget).run (state.reading (tokens ++ rest)) =
      .ok (expression.resolved state.table state.className) (state.reading rest) := by
  cases expression with
  | chain first steps =>
      obtain ⟨front, behind, rfl, spelledFront, spelledBehind⟩ := List.map_eq_append_iff.mp spelled
      rw [List.append_assoc] at enough ⊢
      have ranFirst : (Parser.term budget).run (state.reading (front ++ (behind ++ rest))) =
          .ok (first.resolved state.table state.className) (state.reading (behind ++ rest)) :=
        read_term first spelledFront (endsTerm_restTokens spelledBehind ends)
          (admissible.mono (List.subset_append_left _ _) (List.subset_append_left _ _)) enough
      have ranSteps : Items (operation (Parser.term budget))
          (resolvedRest state.table state.className steps) (state.reading (behind ++ rest))
          (state.reading rest) :=
        read_rest steps spelledBehind ends
          (admissible.mono (List.subset_append_right _ _) (List.subset_append_right _ _))
          (by simp only [List.length_append] at enough ⊢; omega)
      -- every step takes a token, so the budget of tokens is one of steps too
      have few : (resolvedRest state.table state.className steps).length < budget := by
        have spent := length_le_restTokens steps
        rw [← spelledBehind, List.length_map] at spent
        rw [resolvedRest_eq_map, List.length_map]
        simp only [List.length_append] at enough
        omega
      rw [Parser.expression, run_bind_ok ranFirst, run_bind_ok (run_many ranSteps few)]
      rfl

/-- The operations of a chain are read one by one. -/
theorem read_rest (steps : List (BinaryOperator × Term)) {tokens rest : List Located}
    {state : State} {budget : Nat} (spelled : tokens.map (·.token) = restTokens steps)
    (ends : EndsExpression rest)
    (admissible : Admissible state.table (restNames steps) (restStrings steps))
    (enough : (tokens ++ rest).length < budget) :
    Items (operation (Parser.term budget)) (resolvedRest state.table state.className steps)
      (state.reading (tokens ++ rest)) (state.reading rest) := by
  cases steps with
  | nil =>
      rw [List.map_eq_nil_iff.mp spelled]
      exact .none (run_operation_none ends _)
  | cons step steps =>
      obtain ⟨operator, operand⟩ := step
      obtain ⟨sign, more, rfl, sameSign, spelled⟩ := List.map_eq_cons_iff.mp spelled
      obtain ⟨front, behind, rfl, spelledFront, spelledBehind⟩ := List.map_eq_append_iff.mp spelled
      simp only [List.cons_append, List.append_assoc, List.length_cons, List.length_append]
        at enough ⊢
      have ran : (Parser.term budget).run (state.reading (front ++ (behind ++ rest))) =
          .ok (operand.resolved state.table state.className) (state.reading (behind ++ rest)) :=
        read_term operand spelledFront (endsTerm_restTokens spelledBehind ends)
          (admissible.mono (List.subset_append_left _ _) (List.subset_append_left _ _))
          (by simp only [List.length_append]; omega)
      refine .some ?_ (read_rest steps spelledBehind ends
        (admissible.mono (List.subset_append_right _ _) (List.subset_append_right _ _))
        (by simp only [List.length_append]; omega))
      rw [operation, run_bind_ok (run_peek? state)]
      simp only [List.head?_cons, Option.map_some, sameSign, BinaryOperator.ofSymbol?_symbol]
      rw [run_bind_ok (run_advance state), run_bind_ok ran]
      rfl

/-- The arguments of a call are read up to the closing parenthesis. -/
theorem read_arguments (arguments : List Expression) {tokens rest : List Located}
    {closing : Located} {state : State} {budget : Nat}
    (spelled : tokens.map (·.token) = argumentTokens arguments)
    (closes : closing.token = .symbol ')')
    (admissible : Admissible state.table (argumentNames arguments) (argumentStrings arguments))
    (enough : (tokens ++ closing :: rest).length < budget) :
    (Parser.arguments (Parser.expression (Parser.term budget) budget) budget).run
        (state.reading (tokens ++ closing :: rest)) =
      .ok (resolvedArguments state.table state.className arguments)
        (state.reading (closing :: rest)) := by
  cases arguments with
  | nil =>
      rw [List.map_eq_nil_iff.mp spelled, List.nil_append, Parser.arguments,
        run_bind_ok (run_isNext state _)]
      simp only [List.head?_cons, Option.map_some, closes, BEq.rfl, if_true]
      rfl
  | cons argument arguments =>
      obtain ⟨front, behind, rfl, spelledFront, spelledBehind⟩ := List.map_eq_append_iff.mp spelled
      obtain ⟨head, tail, spelledHead, opens⟩ := argument.tokens_cons
      rw [List.append_assoc] at enough ⊢
      have ran : (Parser.expression (Parser.term budget) budget).run
          (state.reading (front ++ (behind ++ closing :: rest))) =
          .ok (argument.resolved state.table state.className)
            (state.reading (behind ++ closing :: rest)) :=
        read_expression argument spelledFront
          (delimited_furtherTokens spelledBehind closes).endsExpression
          (admissible.mono (List.subset_append_left _ _) (List.subset_append_left _ _)) enough
      have ranFurther : Items (further (Parser.expression (Parser.term budget) budget))
          (resolvedArguments state.table state.className arguments)
          (state.reading (behind ++ closing :: rest)) (state.reading (closing :: rest)) :=
        read_further arguments spelledBehind closes
          (admissible.mono (List.subset_append_right _ _) (List.subset_append_right _ _))
          (by simp only [List.length_append] at enough ⊢; omega)
      -- The budget counts items as well as nesting: there are no more arguments than tokens.
      have few : (resolvedArguments state.table state.className arguments).length < budget := by
        have spent := length_le_furtherTokens arguments
        rw [← spelledBehind, List.length_map] at spent
        rw [resolvedArguments_eq_map, List.length_map]
        simp only [List.length_append] at enough
        omega
      have more : ((front ++ (behind ++ closing :: rest)).head?.map (·.token) ==
          some (.symbol ')')) = false := by
        obtain ⟨first, others, rfl, same, -⟩ := List.map_eq_cons_iff.mp (spelledFront.trans spelledHead)
        simpa [same] using opens ')' (by decide)
      rw [Parser.arguments, run_bind_ok (run_isNext state _), more]
      exact run_commaSeparated ran ranFurther few

/-- The arguments behind the first one are read one by one. -/
theorem read_further (arguments : List Expression) {tokens rest : List Located}
    {closing : Located} {state : State} {budget : Nat}
    (spelled : tokens.map (·.token) = furtherTokens arguments)
    (closes : closing.token = .symbol ')')
    (admissible : Admissible state.table (argumentNames arguments) (argumentStrings arguments))
    (enough : (tokens ++ closing :: rest).length < budget) :
    Items (further (Parser.expression (Parser.term budget) budget))
      (resolvedArguments state.table state.className arguments)
      (state.reading (tokens ++ closing :: rest)) (state.reading (closing :: rest)) := by
  cases arguments with
  | nil =>
      rw [List.map_eq_nil_iff.mp spelled]
      refine .none ?_
      rw [List.nil_append, further, run_bind_ok (run_eatSymbol_miss state closes (by decide))]
      rfl
  | cons argument arguments =>
      obtain ⟨comma, more, rfl, sameComma, spelled⟩ := List.map_eq_cons_iff.mp spelled
      obtain ⟨front, behind, rfl, spelledFront, spelledBehind⟩ := List.map_eq_append_iff.mp spelled
      simp only [List.cons_append, List.append_assoc, List.length_cons, List.length_append]
        at enough ⊢
      have ran : (Parser.expression (Parser.term budget) budget).run
          (state.reading (front ++ (behind ++ closing :: rest))) =
          .ok (argument.resolved state.table state.className)
            (state.reading (behind ++ closing :: rest)) :=
        read_expression argument spelledFront
          (delimited_furtherTokens spelledBehind closes).endsExpression
          (admissible.mono (List.subset_append_left _ _) (List.subset_append_left _ _))
          (by simp only [List.length_cons, List.length_append]; omega)
      refine .some ?_ (read_further arguments spelledBehind closes
        (admissible.mono (List.subset_append_right _ _) (List.subset_append_right _ _))
        (by simp only [List.length_cons, List.length_append]; omega))
      rw [further, run_bind_ok (run_eatSymbol_hit state sameComma), if_pos rfl]
      exact run_map_ok some ran

end

/-! ## Reading and compiling -/

/-- The expression `x - f(y, 1) - ~z`. -/
private def difference : Expression :=
  .chain (.variable "x")
    [(.sub, .call (.own "f") [.chain (.variable "y") [], .chain (.integer 1) []]),
      (.sub, .unary .not (.variable "z"))]

/-- Its tokens. -/
private def differenceTokens : List Located :=
  [⟨.identifier "x", 1⟩, ⟨.symbol '-', 1⟩, ⟨.identifier "f", 1⟩, ⟨.symbol '(', 1⟩,
    ⟨.identifier "y", 1⟩, ⟨.symbol ',', 1⟩, ⟨.integer 1, 1⟩, ⟨.symbol ')', 1⟩,
    ⟨.symbol '-', 1⟩, ⟨.symbol '~', 1⟩, ⟨.identifier "z", 1⟩]

/-- A class with three variables, in front of these tokens and a closing parenthesis. -/
private def differenceState : State where
  cursor := .ofTokens (differenceTokens ++ [⟨.symbol ')', 1⟩])
  table := ((Symbol.Table.define {} "x" "int" .var).define "y" "int" .argument).define
    "z" "int" .field
  className := "Main"

/-- The second difference is the right operand of the first one. -/
private theorem tree_difference :
    difference.tree = .binary .sub (.variable "x")
      (.binary .sub (.call (.own "f") [.variable "y", .integer 1])
        (.unary .not (.variable "z"))) := by
  simp [difference, Expression.tree, Term.tree, restTrees, argumentTrees, Tree.ofChain_cons]

/-- A call whose arguments are zeros. -/
def zeros (callee : Callee) (count : Nat) : Term :=
  .call callee (List.replicate count (.chain (.integer 0) []))

section Zeros

variable (callee : Callee) (number : Nat)

/-- The code of such a call, as its operands are counted. -/
theorem codeBy_zeros (count : Nat → Nat) (library : Library) (table : Symbol.Table)
    (className : String) :
    (zeros callee number).tree.codeBy count library table className =
      (callee.receiver table).toList.map Place.push ++ List.replicate number (Instruction.push .constant 0) ++
        [Instruction.call (callee.function table className)
          (count (number + (callee.receiver table).toList.length))] := by
  have codes (trees : Nat) : codesBy count library table className
      (List.replicate trees (Expression.chain (.integer 0) []).tree) =
        List.replicate trees (.push .constant 0) := by
    induction trees with
    | zero => rfl
    | succ trees ih =>
        rw [List.replicate_succ, codesBy, ih, Expression.tree, restTrees, Tree.ofChain_nil]
        rfl
  rw [zeros, Term.tree, Tree.codeBy, argumentTrees_eq_map, List.map_replicate, codes,
    List.length_replicate]

/-- It uses no variable… -/
theorem names_zeros : (zeros callee number).names = [] := by
  rw [zeros, Term.names]
  induction number with
  | zero => rfl
  | succ number ih => rw [List.replicate_succ, argumentNames, ih]; rfl

/-- …and no string constant. -/
theorem strings_zeros : (zeros callee number).strings = [] := by
  rw [zeros, Term.strings]
  induction number with
  | zero => rfl
  | succ number ih => rw [List.replicate_succ, argumentStrings, ih]; rfl

end Zeros

/-- The state in front of an expression that stands alone. -/
private def inFrontOf (expression : Expression) : State where
  cursor := .ofTokens (expression.tokens.map (⟨·, 1⟩))

/-- An expression that uses neither variables nor string constants is read where it stands alone. -/
private theorem read_alone (expression : Expression) (noNames : expression.names = [])
    (noStrings : expression.strings = []) :
    (Parser.value (expression.tokens.length + 1)).run (inFrontOf expression) =
      .ok (expression.resolved {} "") ((inFrontOf expression).reading []) := by
  have spelled : (expression.tokens.map (Located.mk · 1)).map (·.token) = expression.tokens := by
    rw [List.map_map]
    exact List.map_id _
  have ends : EndsExpression [] := Delimited.endsExpression nofun
  have admissible : Admissible {} expression.names expression.strings := by
    rw [noNames, noStrings]
    exact ⟨List.forall_mem_nil _, List.forall_mem_nil _⟩
  have enough : (expression.tokens.map (Located.mk · 1) ++ []).length < expression.tokens.length + 1 := by
    rw [List.append_nil, List.length_map]
    exact Nat.lt_add_one _
  have ran : (Parser.expression (Parser.term (expression.tokens.length + 1))
      (expression.tokens.length + 1)).run
        ((inFrontOf expression).reading (expression.tokens.map (Located.mk · 1) ++ [])) =
      .ok (expression.resolved {} "") ((inFrontOf expression).reading []) :=
    read_expression expression spelled ends admissible enough
  rwa [List.append_nil] at ran

/-- The expression `C.g(0, …, 0)` with one argument more than a counter shows. -/
private def longCall : Expression := .chain (zeros (.member "C" "g") 65536) []

end JackToolchain.Jack.Written

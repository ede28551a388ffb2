import JackToolchain.Proofs.Jack.Consumption
import JackToolchain.Proofs.Jack.ExpressionCompilation

/-!
# Recognizing expressions

What the parsers of expressions accept is an expression of the grammar.

## Main Definitions

* `Recognizes` — whenever a parser succeeds, it has read the tokens of a derivation, and its result is
  that derivation with every name resolved.
* `RecognizesItem` — the same for a parser that may find that nothing follows.

## Main Statements

* `recognizes_many`, `recognizes_commaSeparated` — repetitions of what is recognized are recognized.
* `recognizes_term`, `recognizes_value`, `recognizes_call` — operands, expressions and calls.

## Design Notes

Nothing is assumed about the tokens or about the budget: a parser whose budget is used up stops with a
fault or reads no further, and in both cases claims no derivation that it has not read.
-/

namespace JackToolchain.Jack.Written

open JackToolchain.Jack.Parser

/-! ## Recognition -/

section Recognition

variable {α ω : Type}

/-- **Recognition.**  Whenever the parser succeeds, it has read exactly the tokens of a derivation whose
variables are declared and whose strings are within bounds, and its result is that derivation with
every name resolved. -/
def Recognizes (parser : Parser α) (tokens : ω → List Token) (names strings : ω → List String)
    (resolved : Symbol.Table → String → ω → α) : Prop :=
  ∀ before result after, parser.run before = .ok result after →
    ∃ written, Reads before (tokens written) after ∧
      Admissible before.table (names written) (strings written) ∧
      result = resolved before.table before.className written

/-- **Recognition of what may be absent.**  Where the parser finds nothing, it has read nothing. -/
structure RecognizesItem (item? : Parser (Option α)) (tokens : ω → List Token)
    (names strings : ω → List String) (resolved : Symbol.Table → String → ω → α) : Prop where
  absent : ∀ before after, item?.run before = .ok none after → after = before
  present : ∀ before result after, item?.run before = .ok (some result) after →
    ∃ written, Reads before (tokens written) after ∧
      Admissible before.table (names written) (strings written) ∧
      result = resolved before.table before.className written

theorem Admissible.nil (table : Symbol.Table) : Admissible table [] [] where
  declared := List.forall_mem_nil _
  limits := List.forall_mem_nil _

theorem Admissible.append {table : Symbol.Table} {names more strings further : List String}
    (first : Admissible table names strings) (second : Admissible table more further) :
    Admissible table (names ++ more) (strings ++ further) where
  declared := List.forall_mem_append.mpr ⟨first.declared, second.declared⟩
  limits := List.forall_mem_append.mpr ⟨first.limits, second.limits⟩

variable {tokens : ω → List Token} {names strings : ω → List String}
  {resolved : Symbol.Table → String → ω → α}

/-- **Repetitions** of what is recognized are recognized. -/
theorem recognizes_many {item? : Parser (Option α)}
    (item : RecognizesItem item? tokens names strings resolved) (budget : Nat) :
    Recognizes (many item? budget) (List.flatMap tokens) (List.flatMap names)
      (List.flatMap strings) fun table className => List.map (resolved table className) := by
  intro before result after ran
  have repeated := repeated_of_many item.absent ran
  clear ran
  induction repeated with
  | nil state => exact ⟨[], Reads.refl state, Admissible.nil _, rfl⟩
  | cons ranItem repeated ih =>
      obtain ⟨written, reads, admissible, rfl⟩ := item.present _ _ _ ranItem
      obtain ⟨others, readsOthers, admissibleOthers, rfl⟩ := ih
      rw [reads.table] at admissibleOthers
      rw [reads.table, reads.className]
      exact ⟨written :: others, reads.trans readsOthers, admissible.append admissibleOthers, rfl⟩

/-- **Lists with commas** between their items are recognized, and are not empty. -/
theorem recognizes_commaSeparated {item : Parser α}
    (recognizes : Recognizes item tokens names strings resolved) (budget : Nat) :
    Recognizes (commaSeparated item budget)
      (fun (list : ω × List ω) =>
        tokens list.1 ++ list.2.flatMap fun written => .symbol ',' :: tokens written)
      (fun list => names list.1 ++ list.2.flatMap names)
      (fun list => strings list.1 ++ list.2.flatMap strings)
      fun table className list => (list.1 :: list.2).map (resolved table className) := by
  have furtherItem : RecognizesItem (further item) (fun written => .symbol ',' :: tokens written)
      names strings resolved := by
    constructor
    · intro before after ran
      exact further_eq_none ran
    · intro before result after ran
      obtain ⟨between, comma, ran⟩ := further_eq_some ran
      obtain ⟨written, reads, admissible, rfl⟩ := recognizes _ _ _ ran
      rw [comma.table] at admissible
      rw [comma.table, comma.className]
      exact ⟨written, comma.trans reads, admissible, rfl⟩
  intro before result after ran
  obtain ⟨first, between, ranFirst, ran⟩ := bind_eq_ok ran
  obtain ⟨others, between', ranOthers, ran⟩ := bind_eq_ok ran
  obtain ⟨rfl, rfl⟩ := pure_eq_ok ran
  obtain ⟨written, reads, admissible, rfl⟩ := recognizes _ _ _ ranFirst
  obtain ⟨more, readsMore, admissibleMore, rfl⟩ := recognizes_many furtherItem budget _ _ _ ranOthers
  rw [reads.table] at admissibleMore
  rw [reads.table, reads.className]
  exact ⟨(written, more), reads.trans readsMore, admissible.append admissibleMore, rfl⟩

end Recognition

/-! ## Lists of operands and arguments -/

/-- The tokens of an operator and the operand behind it. -/
def stepTokens (step : BinaryOperator × Term) : List Token := .symbol step.1.symbol :: step.2.tokens

theorem restTokens_eq_flatMap (rest : List (BinaryOperator × Term)) :
    restTokens rest = rest.flatMap stepTokens := by
  induction rest with
  | nil => rfl
  | cons step rest ih =>
      rw [restTokens, ih]
      rfl

theorem restNames_eq_flatMap (rest : List (BinaryOperator × Term)) :
    restNames rest = rest.flatMap (·.2.names) := by
  induction rest with
  | nil => rfl
  | cons step rest ih =>
      rw [restNames, ih]
      rfl

theorem restStrings_eq_flatMap (rest : List (BinaryOperator × Term)) :
    restStrings rest = rest.flatMap (·.2.strings) := by
  induction rest with
  | nil => rfl
  | cons step rest ih =>
      rw [restStrings, ih]
      rfl

theorem furtherTokens_eq_flatMap (arguments : List Expression) :
    furtherTokens arguments = arguments.flatMap fun argument => .symbol ',' :: argument.tokens := by
  induction arguments with
  | nil => rfl
  | cons argument rest ih =>
      rw [furtherTokens, ih]
      rfl

theorem argumentNames_eq_flatMap (arguments : List Expression) :
    argumentNames arguments = arguments.flatMap (·.names) := by
  induction arguments with
  | nil => rfl
  | cons argument rest ih =>
      rw [argumentNames, ih]
      rfl

theorem argumentStrings_eq_flatMap (arguments : List Expression) :
    argumentStrings arguments = arguments.flatMap (·.strings) := by
  induction arguments with
  | nil => rfl
  | cons argument rest ih =>
      rw [argumentStrings, ih]
      rfl

/-! ## Chains and calls -/

section Chains

variable {term : Parser Jack.Term} (operand : Recognizes term Term.tokens Term.names Term.strings
  Term.resolved)

include operand

/-- An operator with the operand behind it is recognized. -/
theorem recognizes_operation : RecognizesItem (operation term) stepTokens (·.2.names) (·.2.strings)
    fun table className step => (step.1, step.2.resolved table className) := by
  constructor
  · intro before after ran
    obtain ⟨found, between, looked, ran⟩ := bind_eq_ok ran
    obtain ⟨rfl, rfl⟩ := peek?_eq_ok looked
    split at ran
    · split at ran
      · obtain ⟨_, _, -, ran⟩ := bind_eq_ok ran
        obtain ⟨_, _, -, ran⟩ := bind_eq_ok ran
        exact absurd (pure_eq_ok ran).1.symm (Option.some_ne_none _)
      · exact (pure_eq_ok ran).2
    · exact (pure_eq_ok ran).2
  · intro before result after ran
    obtain ⟨found, between, looked, ran⟩ := bind_eq_ok ran
    obtain ⟨rfl, rfl⟩ := peek?_eq_ok looked
    split at ran
    · rename_i c found
      split at ran
      · rename_i operator isOperator
        obtain ⟨_, between, advanced, ran⟩ := bind_eq_ok ran
        obtain ⟨value, between', ranTerm, ran⟩ := bind_eq_ok ran
        obtain ⟨same, rfl⟩ := pure_eq_ok ran
        obtain rfl := Option.some.inj same
        have sign := advance_eq_ok advanced found
        obtain ⟨written, reads, admissible, rfl⟩ := operand _ _ _ ranTerm
        rw [sign.table] at admissible
        rw [sign.table, sign.className]
        refine ⟨(operator, written), ?_, admissible, rfl⟩
        rw [stepTokens, BinaryOperator.symbol_of_ofSymbol? isOperator]
        exact sign.trans reads
      · exact absurd (pure_eq_ok ran).1 (Option.some_ne_none _)
    · exact absurd (pure_eq_ok ran).1 (Option.some_ne_none _)

/-- A chain of operands is recognized. -/
theorem recognizes_expression (budget : Nat) :
    Recognizes (Parser.expression term budget) Expression.tokens Expression.names
      Expression.strings Expression.resolved := by
  intro before result after ran
  obtain ⟨first, between, ranFirst, ran⟩ := bind_eq_ok ran
  obtain ⟨rest, between', ranRest, ran⟩ := bind_eq_ok ran
  obtain ⟨rfl, rfl⟩ := pure_eq_ok ran
  obtain ⟨written, reads, admissible, rfl⟩ := operand _ _ _ ranFirst
  obtain ⟨steps, readsSteps, admissibleSteps, rfl⟩ :=
    recognizes_many (recognizes_operation operand) budget _ _ _ ranRest
  rw [reads.table, ← restNames_eq_flatMap, ← restStrings_eq_flatMap] at admissibleSteps
  rw [← restTokens_eq_flatMap] at readsSteps
  refine ⟨.chain written steps, reads.trans readsSteps, admissible.append admissibleSteps, ?_⟩
  rw [Expression.resolved, resolvedRest_eq_map, reads.table, reads.className]

end Chains

/-- What a call names is recognized. -/
theorem callee_eq_ok {before after : State} {function : String} {receiver : Option Place}
    (ran : Parser.callee.run before = .ok (function, receiver) after) :
    ∃ callee : Callee, Reads before callee.tokens after ∧
      function = callee.function before.table before.className ∧
      receiver = callee.receiver before.table := by
  obtain ⟨name, between, ranName, ranBehind⟩ := bind_eq_ok ran
  obtain ⟨hit, between', eaten, ranRest⟩ := bind_eq_ok ranBehind
  have first := identifier_eq_ok ranName
  rcases eatSymbol_eq_ok eaten with ⟨rfl, dot⟩ | ⟨rfl, rfl⟩
  · rw [if_pos rfl] at ranRest
    obtain ⟨method, between'', ranMethod, ran⟩ := bind_eq_ok ranRest
    obtain ⟨found, _, looked, ran⟩ := bind_eq_ok ran
    obtain ⟨rfl, rfl⟩ := lookup?_eq_ok looked
    have second := identifier_eq_ok ranMethod
    have reads := first.trans (dot.trans second)
    refine ⟨.member name method, ?_⟩
    rw [Callee.function, Callee.receiver]
    rw [reads.table] at ran
    -- The name in front of the dot is an object if it is declared, and else the name of a class.
    cases declared : before.table.lookup? name with
    | none =>
        rw [declared] at ran
        obtain ⟨same, rfl⟩ := pure_eq_ok ran
        obtain ⟨rfl, rfl⟩ := Prod.mk.inj same
        exact ⟨reads, rfl, rfl⟩
    | some entry =>
        rw [declared] at ran
        obtain ⟨same, rfl⟩ := pure_eq_ok ran
        obtain ⟨rfl, rfl⟩ := Prod.mk.inj same
        exact ⟨reads, rfl, rfl⟩
  · obtain ⟨state, _, got, ran⟩ := bind_eq_ok ranRest
    obtain ⟨rfl, rfl⟩ := get_eq_ok got
    obtain ⟨same, rfl⟩ := pure_eq_ok ran
    obtain ⟨rfl, rfl⟩ := Prod.mk.inj same
    refine ⟨.own name, first, ?_, rfl⟩
    rw [first.className]
    rfl

section Calls

variable {expression : Parser Jack.Expression} (value : Recognizes expression Expression.tokens
  Expression.names Expression.strings Expression.resolved)

include value

/-- The arguments of a call are recognized. -/
theorem recognizes_arguments (budget : Nat) :
    Recognizes (Parser.arguments expression budget) argumentTokens argumentNames argumentStrings
      resolvedArguments := by
  intro before result after ran
  obtain ⟨closes, between, looked, ran⟩ := bind_eq_ok ran
  obtain ⟨rfl, rfl⟩ := isNext_eq_ok looked
  split at ran
  · obtain ⟨rfl, rfl⟩ := pure_eq_ok ran
    exact ⟨[], Reads.refl _, Admissible.nil _, rfl⟩
  · obtain ⟨⟨first, others⟩, reads, admissible, rfl⟩ :=
      recognizes_commaSeparated value budget _ _ _ ran
    dsimp only at reads admissible
    rw [← furtherTokens_eq_flatMap] at reads
    rw [← argumentNames_eq_flatMap, ← argumentStrings_eq_flatMap] at admissible
    exact ⟨first :: others, reads, admissible, (resolvedArguments_eq_map _ _ _).symm⟩

/-- A call is recognized. -/
theorem recognizes_call (budget : Nat) :
    Recognizes (Parser.call expression budget)
      (fun call : Callee × List Expression => (Term.call call.1 call.2).tokens)
      (fun call => argumentNames call.2) (fun call => argumentStrings call.2)
      fun table className call => ⟨call.1.function table className, call.1.receiver table,
        resolvedArguments table className call.2⟩ := by
  intro before result after ran
  obtain ⟨⟨function, receiver⟩, between, ranCallee, ran⟩ := bind_eq_ok ran
  obtain ⟨_, between', ranOpening, ran⟩ := bind_eq_ok ran
  obtain ⟨arguments, between'', ranArguments, ran⟩ := bind_eq_ok ran
  obtain ⟨_, after', ranClosing, ran⟩ := bind_eq_ok ran
  obtain ⟨rfl, rfl⟩ := pure_eq_ok ran
  obtain ⟨callee, named, rfl, rfl⟩ := callee_eq_ok ranCallee
  have opening := named.trans (expectSymbol_eq_ok ranOpening)
  obtain ⟨written, reads, admissible, rfl⟩ :=
    recognizes_arguments value budget _ _ _ ranArguments
  rw [opening.table] at admissible
  rw [opening.table, opening.className]
  refine ⟨(callee, written), ?_, admissible, rfl⟩
  have read := opening.trans (reads.trans (expectSymbol_eq_ok ranClosing))
  rw [List.append_assoc] at read
  exact read

end Calls

/-! ## Operands -/

/-- A variable that has a cell is declared, and the cell is the one that its name stands for. -/
theorem place_declared {before after : State} {name : String} {place : Place}
    (ran : (Parser.place name).run before = .ok place after) :
    before.table.contains name = true ∧ place = placeOf before.table name ∧ after = before := by
  obtain ⟨entry, found, rfl, rfl⟩ := place_eq_ok ran
  refine ⟨?_, ?_, rfl⟩
  · rw [Symbol.Table.contains, found]
    rfl
  · rw [placeOf, found]
    rfl

/-- A string constant that is read is within the limits. -/
theorem stringConstant_eq_ok {before after : State} {content : String} {term : Jack.Term}
    (ran : (stringConstant content).run before = .ok term after)
    (found : before.cursor.peek? = some (.text content)) :
    Reads before [.text content] after ∧ WithinLimits content ∧ term = .string content.toList := by
  rw [stringConstant] at ran
  split at ran
  · exact (throw_ne_ok ran).elim
  · rename_i narrow
    split at ran
    · rename_i short
      obtain ⟨_, _, advanced, ran⟩ := bind_eq_ok ran
      obtain ⟨rfl, rfl⟩ := pure_eq_ok ran
      refine ⟨advance_eq_ok advanced found, ⟨?_, short⟩, rfl⟩
      intro c member
      have isNarrow := List.find?_eq_none.mp narrow c member
      rw [Bool.not_eq_true, Bool.not_eq_false'] at isNarrow
      exact of_decide_eq_true isNarrow
    · exact (throw_ne_ok ran).elim

section Operands

variable {before after : State} {budget : Nat} {result : Jack.Term}

/-- A single token that stands for an operand. -/
theorem constant_eq_ok {token : Token} {term : Jack.Term}
    (ran : (do advance; return term : Parser Jack.Term).run before = .ok result after)
    (found : before.cursor.peek? = some token) : Reads before [token] after ∧ result = term := by
  obtain ⟨_, _, advanced, ran⟩ := bind_eq_ok ran
  obtain ⟨rfl, rfl⟩ := pure_eq_ok ran
  exact ⟨advance_eq_ok advanced found, rfl⟩

/-- The second token of two. -/
theorem peek?_of_peekAt? {first second : Token} {between : State}
    (reads : Reads before [first] between) (found : before.cursor.peekAt? 1 = some second) :
    between.cursor.peek? = some second := by
  obtain ⟨front, unread, spelled⟩ := reads.spelled
  obtain ⟨located, rfl, -⟩ := List.map_eq_singleton_iff.mp spelled
  rw [Cursor.peekAt?, unread, List.singleton_append, List.getElem?_cons_succ,
    ← List.head?_eq_getElem?] at found
  exact found

/-- Between two positions stand the tokens of an operand, and the result is what it stands for. -/
def ReadsTerm (before : State) (result : Jack.Term) (after : State) : Prop :=
  ∃ written : Term, Reads before written.tokens after ∧
    Admissible before.table written.names written.strings ∧
    result = written.resolved before.table before.className

/-- A name that nothing continues. -/
theorem variable_eq_ok {name : String} (found : before.cursor.peek? = some (.identifier name))
    (ran : (do
      advance
      return .variable (← place name) : Parser Jack.Term).run before = .ok result after) :
    ReadsTerm before result after := by
  obtain ⟨_, _, ranName, ran⟩ := bind_eq_ok ran
  obtain ⟨place, _, ranPlace, ran⟩ := bind_eq_ok ran
  obtain ⟨rfl, rfl⟩ := pure_eq_ok ran
  have readsName := advance_eq_ok ranName found
  obtain ⟨declared, rfl, rfl⟩ := place_declared ranPlace
  rw [readsName.table] at declared ⊢
  exact ⟨.variable name, readsName, ⟨List.forall_mem_singleton.mpr declared, List.forall_mem_nil _⟩, rfl⟩

section Values

variable {expression : Parser Jack.Expression} (value : Recognizes expression Expression.tokens
  Expression.names Expression.strings Expression.resolved)

include value

/-- A name with a bracket behind it.  The array is looked up in front of the index. -/
theorem element_eq_ok {name : String} (found : before.cursor.peek? = some (.identifier name))
    (bracket : before.cursor.peekAt? 1 = some (.symbol '['))
    (ran : (do
      advance
      advance
      let array ← place name
      let index ← expression
      expectSymbol ']'
      return .element array index : Parser Jack.Term).run before = .ok result after) :
    ReadsTerm before result after := by
  obtain ⟨_, _, ranName, ran⟩ := bind_eq_ok ran
  obtain ⟨_, _, ranBracket, ran⟩ := bind_eq_ok ran
  obtain ⟨array, _, ranPlace, ran⟩ := bind_eq_ok ran
  obtain ⟨index, _, ranIndex, ran⟩ := bind_eq_ok ran
  obtain ⟨_, _, ranClosing, ran⟩ := bind_eq_ok ran
  obtain ⟨rfl, rfl⟩ := pure_eq_ok ran
  have readsName := advance_eq_ok ranName found
  have opening := readsName.trans (advance_eq_ok ranBracket (peek?_of_peekAt? readsName bracket))
  obtain ⟨declared, rfl, rfl⟩ := place_declared ranPlace
  obtain ⟨written, reads, admissible, rfl⟩ := value _ _ _ ranIndex
  rw [opening.table] at declared admissible
  rw [opening.table, opening.className]
  refine ⟨.element name written, ?_, ⟨?_, admissible.limits⟩, rfl⟩
  · exact opening.trans (reads.trans (expectSymbol_eq_ok ranClosing))
  · exact List.forall_mem_cons.mpr ⟨declared, admissible.declared⟩

/-- A call as an operand. -/
theorem call_eq_ok
    (ran : (do return (← Parser.call expression budget).term : Parser Jack.Term).run before =
      .ok result after) : ReadsTerm before result after := by
  obtain ⟨call, _, ranCall, ran⟩ := bind_eq_ok ran
  obtain ⟨rfl, rfl⟩ := pure_eq_ok ran
  obtain ⟨⟨callee, arguments⟩, reads, admissible, rfl⟩ := recognizes_call value budget _ _ _ ranCall
  exact ⟨.call callee arguments, reads, admissible, rfl⟩

/-- An expression in parentheses. -/
theorem group_eq_ok (found : before.cursor.peek? = some (.symbol '('))
    (ran : (do
      advance
      let inner ← expression
      expectSymbol ')'
      return .group inner : Parser Jack.Term).run before = .ok result after) :
    ReadsTerm before result after := by
  obtain ⟨_, _, ranOpening, ran⟩ := bind_eq_ok ran
  obtain ⟨inner, _, ranInner, ran⟩ := bind_eq_ok ran
  obtain ⟨_, _, ranClosing, ran⟩ := bind_eq_ok ran
  obtain ⟨rfl, rfl⟩ := pure_eq_ok ran
  have opening := advance_eq_ok ranOpening found
  obtain ⟨written, reads, admissible, rfl⟩ := value _ _ _ ranInner
  rw [opening.table] at admissible
  rw [opening.table, opening.className]
  exact ⟨.group written, opening.trans (reads.trans (expectSymbol_eq_ok ranClosing)), admissible, rfl⟩

end Values

/-- A sign and the operand behind it. -/
theorem unary_eq_ok {term : Parser Jack.Term} (operand : Recognizes term Term.tokens Term.names
      Term.strings Term.resolved) {operator : UnaryOperator}
    (found : before.cursor.peek? = some (.symbol operator.symbol))
    (ran : (do
      advance
      return .unary operator (← term) : Parser Jack.Term).run before = .ok result after) :
    ReadsTerm before result after := by
  obtain ⟨_, _, ranSign, ran⟩ := bind_eq_ok ran
  obtain ⟨inner, _, ranOperand, ran⟩ := bind_eq_ok ran
  obtain ⟨rfl, rfl⟩ := pure_eq_ok ran
  have sign := advance_eq_ok ranSign found
  obtain ⟨written, reads, admissible, rfl⟩ := operand _ _ _ ranOperand
  rw [sign.table] at admissible
  rw [sign.table, sign.className]
  exact ⟨.unary operator written, sign.trans reads, admissible, rfl⟩

end Operands

/-- **Operands** are recognized. -/
theorem recognizes_term (budget : Nat) :
    Recognizes (Parser.term budget) Term.tokens Term.names Term.strings Term.resolved := by
  induction budget with
  | zero =>
      intro before result after ran
      exact (stop_ne_ok ran).elim
  | succ budget operand =>
      have value := recognizes_expression operand budget
      intro before result after ran
      obtain ⟨_, _, looked, ran⟩ := bind_eq_ok ran
      obtain ⟨rfl, rfl⟩ := peek?_eq_ok looked
      split at ran
      · rename_i number found
        obtain ⟨reads, rfl⟩ := constant_eq_ok ran found
        exact ⟨.integer number, reads, Admissible.nil _, rfl⟩
      · rename_i content found
        obtain ⟨reads, limits, rfl⟩ := stringConstant_eq_ok ran found
        exact ⟨.string content, reads, ⟨List.forall_mem_nil _, List.forall_mem_singleton.mpr limits⟩,
          rfl⟩
      · rename_i found
        obtain ⟨reads, rfl⟩ := constant_eq_ok ran found
        exact ⟨.true_, reads, Admissible.nil _, rfl⟩
      · rename_i found
        obtain ⟨reads, rfl⟩ := constant_eq_ok ran found
        exact ⟨.false_, reads, Admissible.nil _, rfl⟩
      · rename_i found
        obtain ⟨reads, rfl⟩ := constant_eq_ok ran found
        exact ⟨.null, reads, Admissible.nil _, rfl⟩
      · rename_i found
        obtain ⟨reads, rfl⟩ := constant_eq_ok ran found
        exact ⟨.this, reads, Admissible.nil _, rfl⟩
      · -- a name: what follows tells an element from a call and from a variable
        rename_i name found
        obtain ⟨_, _, looked, ran⟩ := bind_eq_ok ran
        obtain ⟨rfl, rfl⟩ := peekAt?_eq_ok looked
        split at ran
        · rename_i bracket
          exact element_eq_ok value found bracket ran
        · exact call_eq_ok value ran
        · exact call_eq_ok value ran
        · exact variable_eq_ok found ran
      · rename_i found
        exact group_eq_ok value found ran
      · rename_i c _ found
        split at ran
        · rename_i operator isOperator
          rw [← UnaryOperator.symbol_of_ofSymbol? isOperator] at found
          exact unary_eq_ok operand found ran
        · exact (stop_ne_ok ran).elim
      · exact (stop_ne_ok ran).elim

/-- **Expressions** are recognized. -/
theorem recognizes_value (budget : Nat) :
    Recognizes (Parser.value budget) Expression.tokens Expression.names Expression.strings
      Expression.resolved :=
  recognizes_expression (recognizes_term budget) budget

end JackToolchain.Jack.Written

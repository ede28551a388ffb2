import JackToolchain.Proofs.Jack.ExpressionCompilation
import JackToolchain.Proofs.Jack.ClassReading
import Mathlib.Data.Bool.AllAny

/-!
# Unique reading

The grammar is unambiguous.

## Main Definitions

* `Stops`, `Closes` — what stands behind an operand, and behind an expression.

## Main Statements

* `Term.unique`, `Expression.unique`, `Statement.unique` — tokens begin with at most one operand, expression
  or statement, if what stands behind it does not continue it.
* `Class.tokens_injective` — tokens spell at most one class.

## Design Notes

A name may go on with a bracket, a parenthesis or a dot, an expression with an operator, and a branch with
`else`.  Nothing else in the grammar has to look at the token behind it.
-/

namespace JackToolchain.Jack.Written

/-! ## What stands behind -/

/-- Tokens that do not continue a name. -/
def Stops (rest : List Token) : Prop := ∀ c ∈ ['[', '(', '.'], ∀ more, rest ≠ .symbol c :: more

/-- Tokens in front of which an expression ends. -/
def Closes (rest : List Token) : Prop :=
  ∃ c ∈ [')', ']', ';', ','], ∃ more, rest = .symbol c :: more

theorem closes_cons {c : Char} (closing : c ∈ [')', ']', ';', ',']) (rest : List Token) :
    Closes (.symbol c :: rest) :=
  ⟨c, closing, rest, rfl⟩

theorem Closes.stops {rest : List Token} (closes : Closes rest) : Stops rest := by
  obtain ⟨closing, closes, rest, rfl⟩ := closes
  intro c continues more same
  obtain ⟨⟨⟩, -⟩ := List.cons.inj same
  have apart : ∀ c ∈ [')', ']', ';', ','], c ∉ ['[', '(', '.'] :=
    List.all_iff_forall_prop.mp (by decide)
  exact apart closing closes continues

/-- No operator stands in front of what closes an expression. -/
theorem Closes.ne_operator {rest more : List Token} (closes : Closes rest)
    (operator : BinaryOperator) : rest ≠ .symbol operator.symbol :: more := by
  obtain ⟨closing, closes, rest, rfl⟩ := closes
  intro same
  obtain ⟨⟨⟩, -⟩ := List.cons.inj same
  revert closes
  cases operator <;> decide

theorem stops_restTokens (steps : List (BinaryOperator × Term)) {rest : List Token}
    (closes : Closes rest) : Stops (restTokens steps ++ rest) := by
  cases steps with
  | nil => exact closes.stops
  | cons step steps =>
      obtain ⟨operator, operand⟩ := step
      intro c continues more same
      obtain ⟨⟨⟩, -⟩ := List.cons.inj same
      revert continues
      cases operator <;> decide

theorem closes_furtherTokens (arguments : List Expression) (rest : List Token) :
    Closes (furtherTokens arguments ++ .symbol ')' :: rest) := by
  cases arguments with
  | nil => exact closes_cons (by decide) rest
  | cons argument arguments => exact closes_cons (by decide) _

/-- An expression does not begin where one ends. -/
theorem Closes.ne_expression {rest behind : List Token} (closes : Closes rest)
    (expression : Expression) : rest ≠ expression.tokens ++ behind := by
  obtain ⟨c, closing, more, rfl⟩ := closes
  obtain ⟨head, tail, spelled, opens⟩ := expression.tokens_cons
  rw [spelled]
  intro same
  exact opens c closing (List.cons.inj same).1.symm

theorem BinaryOperator.symbol_injective : Function.Injective BinaryOperator.symbol := by
  intro operator other same
  cases operator <;> cases other <;> first | rfl | exact absurd same (by decide)

theorem UnaryOperator.symbol_injective : Function.Injective UnaryOperator.symbol := by
  intro operator other same
  cases operator <;> cases other <;> first | rfl | exact absurd same (by decide)

/-! ## Calls -/

namespace Callee

/-- The name with which a call begins. -/
def leading : Callee → String
  | own name => name
  | member owner _ => owner

/-- What selects the subroutine behind that name. -/
def selection : Callee → List Token
  | own _ => []
  | member _ name => [.symbol '.', .identifier name]

theorem tokens_eq (callee : Callee) :
    callee.tokens = .identifier callee.leading :: callee.selection := by
  cases callee <;> rfl

/-- A call continues its name. -/
theorem not_stops (callee : Callee) (rest : List Token) :
    ¬ Stops (callee.selection ++ .symbol '(' :: rest) := by
  cases callee with
  | own name => exact fun stops => stops '(' (by decide) _ rfl
  | member owner name => exact fun stops => stops '.' (by decide) _ rfl

/-- …and not as an element of an array does. -/
theorem ne_element (callee : Callee) (rest behind : List Token) :
    callee.selection ++ .symbol '(' :: rest ≠ .symbol '[' :: behind := by
  cases callee <;> exact fun same => absurd (List.cons.inj same).1 (by decide)

/-- **Calls begin differently.** -/
theorem unique {callee other : Callee} {rest behind : List Token}
    (same : callee.tokens ++ .symbol '(' :: rest = other.tokens ++ .symbol '(' :: behind) :
    callee = other ∧ rest = behind := by
  cases callee <;> cases other <;> simp_all [tokens]

end Callee

/-! ## Expressions -/

mutual

/-- **At most one operand** begins tokens, if nothing behind it continues its name. -/
theorem Term.unique (term other : Term) {rest behind : List Token} (stops : Stops rest)
    (stopsToo : Stops behind) (same : term.tokens ++ rest = other.tokens ++ behind) :
    term = other ∧ rest = behind := by
  -- the first token tells operands apart, but for the three that begin with a name
  cases term with
  | integer value =>
      cases other with
      | integer => simpa [Term.tokens] using same
      | _ => simp [Term.tokens, Callee.tokens_eq] at same
  | string content =>
      cases other with
      | string => simpa [Term.tokens] using same
      | _ => simp [Term.tokens, Callee.tokens_eq] at same
  | true_ | false_ | null | this =>
      cases other <;> simp [Term.tokens, Callee.tokens_eq] at same ⊢
      all_goals exact same
  | «variable» name =>
      cases other with
      | «variable» => simpa [Term.tokens] using same
      | element array index =>
          simp only [Term.tokens, List.cons_append, List.nil_append] at same
          exact absurd (List.cons.inj same).2 (stops '[' (by decide) _)
      | call callee arguments =>
          simp only [Term.tokens, callee.tokens_eq, List.cons_append, List.nil_append,
            List.append_assoc] at same
          exact absurd ((List.cons.inj same).2 ▸ stops) (callee.not_stops _)
      | _ => simp [Term.tokens] at same
  | element array index =>
      cases other with
      | «variable» =>
          simp only [Term.tokens, List.cons_append, List.nil_append] at same
          exact absurd (List.cons.inj same).2.symm (stopsToo '[' (by decide) _)
      | element otherArray otherIndex =>
          simp only [Term.tokens, List.cons_append, List.append_assoc, List.nil_append] at same
          obtain ⟨⟨⟩, opened⟩ := List.cons.inj same
          obtain ⟨rfl, closed⟩ := index.unique otherIndex (closes_cons (by decide) _)
            (closes_cons (by decide) _) (List.cons.inj opened).2
          exact ⟨rfl, (List.cons.inj closed).2⟩
      | call callee arguments =>
          simp only [Term.tokens, callee.tokens_eq, List.cons_append, List.append_assoc] at same
          exact absurd (List.cons.inj same).2.symm (callee.ne_element _ _)
      | _ => simp [Term.tokens] at same
  | call callee arguments =>
      cases other with
      | «variable» =>
          simp only [Term.tokens, callee.tokens_eq, List.cons_append, List.nil_append,
            List.append_assoc] at same
          exact absurd ((List.cons.inj same).2 ▸ stopsToo) (callee.not_stops _)
      | element array index =>
          simp only [Term.tokens, callee.tokens_eq, List.cons_append, List.append_assoc] at same
          exact absurd (List.cons.inj same).2 (callee.ne_element _ _)
      | call otherCallee otherArguments =>
          simp only [Term.tokens, List.cons_append, List.append_assoc, List.nil_append] at same
          obtain ⟨rfl, inside⟩ := Callee.unique same
          obtain ⟨rfl, left⟩ := arguments_unique arguments otherArguments inside
          exact ⟨rfl, left⟩
      | _ => simp [Term.tokens, Callee.tokens_eq] at same
  | group inner =>
      cases other with
      | group other =>
          simp only [Term.tokens, List.cons_append, List.append_assoc, List.nil_append] at same
          obtain ⟨rfl, closed⟩ := inner.unique other (closes_cons (by decide) _)
            (closes_cons (by decide) _) (List.cons.inj same).2
          exact ⟨rfl, (List.cons.inj closed).2⟩
      | unary operator operand => cases operator <;> simp [Term.tokens, UnaryOperator.symbol] at same
      | _ => simp [Term.tokens, Callee.tokens_eq] at same
  | unary operator operand =>
      cases other with
      | group inner => cases operator <;> simp [Term.tokens, UnaryOperator.symbol] at same
      | unary otherOperator other =>
          simp only [Term.tokens, List.cons_append] at same
          obtain ⟨signs, unsigned⟩ := List.cons.inj same
          obtain rfl := UnaryOperator.symbol_injective (Token.symbol.inj signs)
          obtain ⟨rfl, left⟩ := operand.unique other stops stopsToo unsigned
          exact ⟨rfl, left⟩
      | _ => simp [Term.tokens, Callee.tokens_eq] at same
termination_by structural term

/-- **At most one expression** begins tokens, if it is closed behind. -/
theorem Expression.unique (expression other : Expression) {rest behind : List Token}
    (closes : Closes rest) (closesToo : Closes behind)
    (same : expression.tokens ++ rest = other.tokens ++ behind) :
    expression = other ∧ rest = behind := by
  cases expression with
  | chain first steps =>
      cases other with
      | chain otherFirst otherSteps =>
          simp only [Expression.tokens, List.append_assoc] at same
          obtain ⟨rfl, more⟩ := first.unique otherFirst (stops_restTokens steps closes)
            (stops_restTokens otherSteps closesToo) same
          obtain ⟨rfl, left⟩ := steps_unique steps otherSteps closes closesToo more
          exact ⟨rfl, left⟩
termination_by structural expression

theorem steps_unique (steps other : List (BinaryOperator × Term)) {rest behind : List Token}
    (closes : Closes rest) (closesToo : Closes behind)
    (same : restTokens steps ++ rest = restTokens other ++ behind) :
    steps = other ∧ rest = behind := by
  cases steps with
  | nil =>
      cases other with
      | nil => exact ⟨rfl, same⟩
      | cons step other =>
          obtain ⟨operator, operand⟩ := step
          exact absurd same (closes.ne_operator operator)
  | cons step steps =>
      obtain ⟨operator, operand⟩ := step
      cases other with
      | nil => exact absurd same.symm (closesToo.ne_operator operator)
      | cons otherStep other =>
          obtain ⟨otherOperator, otherOperand⟩ := otherStep
          simp only [restTokens, List.cons_append, List.append_assoc] at same
          obtain ⟨signs, unsigned⟩ := List.cons.inj same
          obtain rfl := BinaryOperator.symbol_injective (Token.symbol.inj signs)
          obtain ⟨rfl, more⟩ := operand.unique otherOperand (stops_restTokens steps closes)
            (stops_restTokens other closesToo) unsigned
          obtain ⟨rfl, left⟩ := steps_unique steps other closes closesToo more
          exact ⟨rfl, left⟩
termination_by structural steps

theorem arguments_unique (arguments other : List Expression) {rest behind : List Token}
    (same : argumentTokens arguments ++ .symbol ')' :: rest =
      argumentTokens other ++ .symbol ')' :: behind) : arguments = other ∧ rest = behind := by
  cases arguments with
  | nil =>
      cases other with
      | nil => exact ⟨rfl, (List.cons.inj same).2⟩
      | cons argument other =>
          rw [argumentTokens, argumentTokens, List.append_assoc] at same
          exact absurd same ((closes_cons (by decide) rest).ne_expression argument)
  | cons argument arguments =>
      cases other with
      | nil =>
          rw [argumentTokens, argumentTokens, List.append_assoc] at same
          exact absurd same.symm ((closes_cons (by decide) behind).ne_expression argument)
      | cons otherArgument other =>
          rw [argumentTokens, argumentTokens, List.append_assoc, List.append_assoc] at same
          obtain ⟨rfl, more⟩ := argument.unique otherArgument (closes_furtherTokens arguments rest)
            (closes_furtherTokens other behind) same
          obtain ⟨rfl, left⟩ := further_unique arguments other more
          exact ⟨rfl, left⟩
termination_by structural arguments

theorem further_unique (arguments other : List Expression) {rest behind : List Token}
    (same : furtherTokens arguments ++ .symbol ')' :: rest =
      furtherTokens other ++ .symbol ')' :: behind) : arguments = other ∧ rest = behind := by
  cases arguments with
  | nil =>
      cases other with
      | nil => exact ⟨rfl, (List.cons.inj same).2⟩
      | cons argument other => simp [furtherTokens] at same
  | cons argument arguments =>
      cases other with
      | nil => simp [furtherTokens] at same
      | cons otherArgument other =>
          rw [furtherTokens, furtherTokens, List.cons_append, List.cons_append, List.append_assoc,
            List.append_assoc] at same
          obtain ⟨rfl, more⟩ := argument.unique otherArgument (closes_furtherTokens arguments rest)
            (closes_furtherTokens other behind) (List.cons.inj same).2
          obtain ⟨rfl, left⟩ := further_unique arguments other more
          exact ⟨rfl, left⟩
termination_by structural arguments

end

/-! ## Statements -/

/-- Tokens that do not continue a branch. -/
def NoElse (rest : List Token) : Prop := ∀ more, rest ≠ .keyword .else_ :: more

theorem noElse_statementTokens (statements : List Statement) (rest : List Token) :
    NoElse (statementTokens statements ++ .symbol '}' :: rest) := by
  intro more same
  cases statements with
  | nil => exact absurd (List.cons.inj same).1 (by decide)
  | cons statement statements =>
      obtain ⟨word, tail, spelled, other⟩ := statement.tokens_cons
      rw [statementTokens, spelled] at same
      exact other (Token.keyword.inj (List.cons.inj same).1)

theorem Expression.unique_behind_condition {condition other : Expression} {rest behind : List Token}
    (same : conditionTokens condition ++ rest = conditionTokens other ++ behind) :
    condition = other ∧ rest = behind := by
  simp only [conditionTokens, List.cons_append, List.append_assoc, List.nil_append] at same
  obtain ⟨rfl, closed⟩ := condition.unique other (closes_cons (by decide) _)
    (closes_cons (by decide) _) (List.cons.inj same).2
  exact ⟨rfl, (List.cons.inj closed).2⟩

theorem result_unique {result other : Option Expression} {rest behind : List Token}
    (same : resultTokens result ++ .symbol ';' :: rest = resultTokens other ++ .symbol ';' :: behind) :
    result = other ∧ rest = behind := by
  have closes (tokens : List Token) : Closes (.symbol ';' :: tokens) := closes_cons (by decide) tokens
  cases result with
  | none =>
      cases other with
      | none => exact ⟨rfl, (List.cons.inj same).2⟩
      | some value => exact absurd same ((closes rest).ne_expression value)
  | some value =>
      cases other with
      | none => exact absurd same.symm ((closes behind).ne_expression value)
      | some otherValue =>
          obtain ⟨rfl, closed⟩ := value.unique otherValue (closes rest) (closes behind) same
          exact ⟨rfl, (List.cons.inj closed).2⟩

/-- A condition and the braces behind it, if the statements in the braces are read in one way. -/
theorem guarded_unique {condition other : Expression} {body otherBody : List Statement}
    {rest behind : List Token}
    (inside : ∀ {rest behind}, statementTokens body ++ Token.symbol '}' :: rest =
      statementTokens otherBody ++ Token.symbol '}' :: behind → body = otherBody ∧ rest = behind)
    (same : conditionTokens condition ++ (braced (statementTokens body) ++ rest) =
      conditionTokens other ++ (braced (statementTokens otherBody) ++ behind)) :
    condition = other ∧ body = otherBody ∧ rest = behind := by
  obtain ⟨rfl, tested⟩ := Expression.unique_behind_condition same
  simp only [braced, List.cons_append, List.append_assoc, List.nil_append] at tested
  obtain ⟨rfl, left⟩ := inside (List.cons.inj tested).2
  exact ⟨rfl, rfl, left⟩

mutual

/-- **At most one statement** begins tokens, if what stands behind it does not continue a branch. -/
theorem Statement.unique (statement other : Statement) {rest behind : List Token}
    (ends : NoElse rest) (endsToo : NoElse behind)
    (same : statement.tokens ++ rest = other.tokens ++ behind) :
    statement = other ∧ rest = behind := by
  -- the first word tells statements apart, but for the two of each that begin with `let` and `if`
  cases statement with
  | assign target value =>
      cases other with
      | assign otherTarget otherValue =>
          simp only [Statement.tokens, List.cons_append, List.append_assoc, List.nil_append,
            List.cons.injEq, Token.identifier.injEq, true_and] at same
          obtain ⟨rfl, given⟩ := same
          obtain ⟨rfl, closed⟩ := value.unique otherValue (closes_cons (by decide) _)
            (closes_cons (by decide) _) given
          exact ⟨rfl, (List.cons.inj closed).2⟩
      | _ => simp [Statement.tokens] at same
  | assignElement array index value =>
      cases other with
      | assignElement otherArray otherIndex otherValue =>
          simp only [Statement.tokens, List.cons_append, List.append_assoc, List.nil_append,
            List.cons.injEq, Token.identifier.injEq, true_and] at same
          obtain ⟨rfl, opened⟩ := same
          obtain ⟨rfl, indexed⟩ := index.unique otherIndex (closes_cons (by decide) _)
            (closes_cons (by decide) _) opened
          simp only [List.cons.injEq, true_and] at indexed
          obtain ⟨rfl, closed⟩ := value.unique otherValue (closes_cons (by decide) _)
            (closes_cons (by decide) _) indexed
          exact ⟨rfl, (List.cons.inj closed).2⟩
      | _ => simp [Statement.tokens] at same
  | branch condition body =>
      cases other with
      | branch otherCondition otherBody =>
          simp only [Statement.tokens, List.cons_append, List.append_assoc] at same
          obtain ⟨rfl, rfl, left⟩ :=
            guarded_unique (statements_unique body otherBody) (List.cons.inj same).2
          exact ⟨rfl, left⟩
      | choice otherCondition whenTrue whenFalse =>
          simp only [Statement.tokens, List.cons_append, List.append_assoc] at same
          obtain ⟨rfl, rfl, left⟩ :=
            guarded_unique (statements_unique body whenTrue) (List.cons.inj same).2
          exact absurd left (ends _)
      | _ => simp [Statement.tokens] at same
  | choice condition whenTrue whenFalse =>
      cases other with
      | branch otherCondition otherBody =>
          simp only [Statement.tokens, List.cons_append, List.append_assoc] at same
          obtain ⟨rfl, rfl, left⟩ :=
            guarded_unique (statements_unique whenTrue otherBody) (List.cons.inj same).2
          exact absurd left.symm (endsToo _)
      | choice otherCondition otherTrue otherFalse =>
          simp only [Statement.tokens, List.cons_append, List.append_assoc] at same
          obtain ⟨rfl, rfl, more⟩ :=
            guarded_unique (statements_unique whenTrue otherTrue) (List.cons.inj same).2
          simp only [braced, List.cons_append, List.append_assoc, List.nil_append, List.cons.injEq,
            true_and] at more
          obtain ⟨rfl, left⟩ := statements_unique whenFalse otherFalse more
          exact ⟨rfl, left⟩
      | _ => simp [Statement.tokens] at same
  | loop condition body =>
      cases other with
      | loop otherCondition otherBody =>
          simp only [Statement.tokens, List.cons_append, List.append_assoc] at same
          obtain ⟨rfl, rfl, left⟩ :=
            guarded_unique (statements_unique body otherBody) (List.cons.inj same).2
          exact ⟨rfl, left⟩
      | _ => simp [Statement.tokens] at same
  | run callee arguments =>
      cases other with
      | run otherCallee otherArguments =>
          simp only [Statement.tokens, List.cons_append, List.append_assoc, List.nil_append] at same
          obtain ⟨⟨⟩, closed⟩ := Term.unique (.call callee arguments)
            (.call otherCallee otherArguments) (closes_cons (by decide) _).stops
            (closes_cons (by decide) _).stops (List.cons.inj same).2
          exact ⟨rfl, (List.cons.inj closed).2⟩
      | _ => simp [Statement.tokens] at same
  | leave result =>
      cases other with
      | leave otherResult =>
          simp only [Statement.tokens, List.cons_append, List.append_assoc, List.nil_append] at same
          obtain ⟨rfl, left⟩ := result_unique (List.cons.inj same).2
          exact ⟨rfl, left⟩
      | _ => simp [Statement.tokens] at same
termination_by structural statement

theorem statements_unique (statements other : List Statement) {rest behind : List Token}
    (same : statementTokens statements ++ .symbol '}' :: rest =
      statementTokens other ++ .symbol '}' :: behind) : statements = other ∧ rest = behind := by
  cases statements with
  | nil =>
      cases other with
      | nil => exact ⟨rfl, (List.cons.inj same).2⟩
      | cons statement other =>
          obtain ⟨word, tail, spelled, -⟩ := statement.tokens_cons
          simp [statementTokens, spelled] at same
  | cons statement statements =>
      cases other with
      | nil =>
          obtain ⟨word, tail, spelled, -⟩ := statement.tokens_cons
          simp [statementTokens, spelled] at same
      | cons otherStatement other =>
          simp only [statementTokens, List.append_assoc] at same
          obtain ⟨rfl, more⟩ := statement.unique otherStatement (noElse_statementTokens statements rest)
            (noElse_statementTokens other behind) same
          obtain ⟨rfl, left⟩ := statements_unique statements other more
          exact ⟨rfl, left⟩
termination_by structural statements

end

/-! ## Repetitions -/

/-- **A repetition** is read in one way, if its items are, and none begins behind it. -/
theorem flatMap_unique {α : Type} {tokens : α → List Token}
    (items : ∀ {item other rest behind}, tokens item ++ rest = tokens other ++ behind →
      item = other ∧ rest = behind) {list other : List α} {rest behind : List Token}
    (ends : ∀ item more, rest ≠ tokens item ++ more)
    (endsToo : ∀ item more, behind ≠ tokens item ++ more)
    (same : list.flatMap tokens ++ rest = other.flatMap tokens ++ behind) :
    list = other ∧ rest = behind := by
  induction list generalizing other with
  | nil =>
      cases other with
      | nil => exact ⟨rfl, same⟩
      | cons item other =>
          rw [List.flatMap_cons, List.append_assoc] at same
          exact absurd same (ends item _)
  | cons item list ih =>
      cases other with
      | nil =>
          rw [List.flatMap_cons, List.append_assoc] at same
          exact absurd same.symm (endsToo item _)
      | cons otherItem other =>
          rw [List.flatMap_cons, List.flatMap_cons, List.append_assoc, List.append_assoc] at same
          obtain ⟨rfl, more⟩ := items same
          obtain ⟨rfl, left⟩ := ih more
          exact ⟨rfl, left⟩

/-! ## Declarations -/

theorem TypeName.token_injective : Function.Injective TypeName.token := by
  intro type other same
  cases type <;> cases other <;> simp_all [TypeName.token]

theorem returnToken_injective : Function.Injective returnToken := by
  intro returns other same
  cases returns with
  | none => cases other with
    | none => rfl
    | some type => cases type <;> simp [returnToken, TypeName.token] at same
  | some type => cases other with
    | none => cases type <;> simp [returnToken, TypeName.token] at same
    | some other => exact congrArg some (TypeName.token_injective same)

theorem kindKeyword_injective : Function.Injective kindKeyword := by
  intro kind other same
  cases kind <;> cases other <;> first | rfl | exact absurd same (by decide)

theorem Variables.unique {group other : Variables} {rest behind : List Token}
    (same : group.tokens ++ rest = other.tokens ++ behind) :
    group = other ∧ rest = behind := by
  obtain ⟨type, first, more⟩ := group
  obtain ⟨otherType, otherFirst, otherMore⟩ := other
  simp only [Variables.tokens, List.cons_append, List.append_assoc, List.nil_append,
    List.cons.injEq, Token.identifier.injEq] at same
  obtain ⟨types, rfl, names⟩ := same
  obtain rfl := TypeName.token_injective types
  obtain ⟨rfl, closed⟩ := flatMap_unique (by simp) (by simp) (by simp) names
  exact ⟨rfl, (List.cons.inj closed).2⟩

theorem ClassVariables.unique {declaration other : ClassVariables} {rest behind : List Token}
    (same : declaration.tokens ++ rest = other.tokens ++ behind) :
    declaration = other ∧ rest = behind := by
  obtain ⟨areFields, group⟩ := declaration
  obtain ⟨otherFields, otherGroup⟩ := other
  obtain ⟨words, declared⟩ := List.cons.inj same
  obtain ⟨rfl, left⟩ := Variables.unique declared
  cases areFields <;> cases otherFields <;> simp_all

theorem Parameter.unique {parameter other : Parameter} {rest behind : List Token}
    (same : parameter.tokens ++ rest = other.tokens ++ behind) :
    parameter = other ∧ rest = behind := by
  obtain ⟨type, name⟩ := parameter
  obtain ⟨otherType, otherName⟩ := other
  simp only [Parameter.tokens, List.cons_append, List.nil_append, List.cons.injEq,
    Token.identifier.injEq] at same
  obtain ⟨types, rfl, left⟩ := same
  obtain rfl := TypeName.token_injective types
  exact ⟨rfl, left⟩

theorem parameters_unique {parameters other : List Parameter} {rest behind : List Token}
    (same : parameterTokens parameters ++ .symbol ')' :: rest =
      parameterTokens other ++ .symbol ')' :: behind) : parameters = other ∧ rest = behind := by
  have opens (parameter : Parameter) : parameter.type.token ≠ .symbol ')' := by
    cases parameter.type <;> nofun
  cases parameters with
  | nil =>
      cases other with
      | nil => exact ⟨rfl, (List.cons.inj same).2⟩
      | cons parameter other => exact absurd (List.cons.inj same).1.symm (opens parameter)
  | cons parameter parameters =>
      cases other with
      | nil => exact absurd (List.cons.inj same).1 (opens parameter)
      | cons otherParameter other =>
          simp only [parameterTokens, List.append_assoc] at same
          obtain ⟨rfl, more⟩ := Parameter.unique same
          obtain ⟨rfl, closed⟩ := flatMap_unique
            (fun same => Parameter.unique (List.cons.inj same).2) (by simp) (by simp) more
          exact ⟨rfl, (List.cons.inj closed).2⟩

/-! ## Classes -/

/-- No declaration begins where the statements of a subroutine do. -/
theorem statementTokens_ne_var (statements : List Statement) (rest more : List Token) :
    statementTokens statements ++ .symbol '}' :: rest ≠ .keyword .var :: more := by
  cases statements with
  | nil => nofun
  | cons statement statements => cases statement <;> nofun

/-- …nor where the subroutines of a class do. -/
theorem subroutineTokens_ne_declaration (subroutines : List Subroutine) (declaration : ClassVariables)
    (rest more : List Token) :
    subroutines.flatMap (·.tokens) ++ .symbol '}' :: rest ≠ declaration.tokens ++ more := by
  intro same
  cases subroutines with
  | nil => nomatch (List.cons.inj same).1
  | cons subroutine subroutines =>
      have apart (kind : SubroutineKind) (areFields : Bool) :
          kindKeyword kind ≠ if areFields then .field else .static_ := by
        cases kind <;> cases areFields <;> decide
      exact apart subroutine.kind declaration.areFields (Token.keyword.inj (List.cons.inj same).1)

theorem Subroutine.unique {subroutine other : Subroutine} {rest behind : List Token}
    (same : subroutine.tokens ++ rest = other.tokens ++ behind) :
    subroutine = other ∧ rest = behind := by
  obtain ⟨kind, returns, name, parameters, locals, body⟩ := subroutine
  obtain ⟨otherKind, otherReturns, otherName, otherParameters, otherLocals, otherBody⟩ := other
  simp only [Subroutine.tokens, List.cons_append, List.append_assoc, List.nil_append,
    List.cons.injEq, Token.identifier.injEq, Token.keyword.injEq, true_and] at same
  obtain ⟨kinds, results, rfl, listed⟩ := same
  obtain rfl := kindKeyword_injective kinds
  obtain rfl := returnToken_injective results
  obtain ⟨rfl, inBraces⟩ := parameters_unique listed
  simp only [List.cons.injEq, true_and] at inBraces
  obtain ⟨rfl, stated⟩ := flatMap_unique (fun same => Variables.unique (List.cons.inj same).2)
    (fun _ _ => statementTokens_ne_var body rest _)
    (fun _ _ => statementTokens_ne_var otherBody behind _) inBraces
  obtain ⟨rfl, left⟩ := statements_unique body otherBody stated
  exact ⟨rfl, left⟩

/-- **At most one class** is spelled by tokens. -/
theorem Class.tokens_injective : Function.Injective Class.tokens := by
  intro cls other same
  obtain ⟨name, shared, subroutines⟩ := cls
  obtain ⟨otherName, otherShared, otherSubroutines⟩ := other
  simp only [Class.tokens, List.cons.injEq, Token.identifier.injEq, true_and] at same
  obtain ⟨rfl, inBraces⟩ := same
  obtain ⟨rfl, behind⟩ := flatMap_unique ClassVariables.unique
    (subroutineTokens_ne_declaration subroutines · [] ·)
    (subroutineTokens_ne_declaration otherSubroutines · [] ·) inBraces
  have closes (subroutine : Subroutine) (more : List Token) :
      [.symbol '}'] ≠ subroutine.tokens ++ more := by
    rintro ⟨⟩
  obtain ⟨rfl, -⟩ := flatMap_unique Subroutine.unique closes closes behind
  rfl

end JackToolchain.Jack.Written

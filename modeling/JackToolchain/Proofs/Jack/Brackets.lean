import JackToolchain.Proofs.Jack.WrittenClass

/-!
# Brackets

Round, square and curly brackets in what the grammar derives.

## Main Definitions

* `nest` — what one token does to the brackets that are expected to close, the innermost first.
* `Balanced` — every bracket is closed by one of its own kind, and in the right order.
* `Neutral` — tokens behind which the same brackets are expected as in front of them.

## Main Statements

* `Class.balanced_tokens` — the tokens of a class are balanced.
-/

namespace JackToolchain.Jack.Written

/-- The bracket that closes what a character opens. -/
def closing? : Char → Option Char
  | '(' => some ')'
  | '[' => some ']'
  | '{' => some '}'
  | _ => none

/-- The brackets that are expected to close behind a token, given those in front of it, the innermost
first.  Only the innermost one may close. -/
def nest (expected : List Char) : Token → Option (List Char)
  | .symbol c =>
    match closing? c with
    | some closer => some (closer :: expected)
    | none =>
      if c ∈ [')', ']', '}'] then
        match expected with
        | innermost :: outer => if c = innermost then some outer else none
        | [] => none
      else some expected
  | _ => some expected

/-- **Balanced brackets.**  No bracket is closed by one of another kind or closed without having been
opened, and none stays open. -/
def Balanced (tokens : List Token) : Prop := tokens.foldlM nest [] = some []

instance (tokens : List Token) : Decidable (Balanced tokens) :=
  inferInstanceAs (Decidable (_ = _))

/-- Tokens behind which the same brackets are expected as in front of them. -/
def Neutral (tokens : List Token) : Prop :=
  ∀ expected, tokens.foldlM nest expected = some expected

/-! ## Composition -/

namespace Neutral

variable {front behind inner : List Token} {token : Token}

theorem nil : Neutral [] := fun _ => rfl

theorem append (first : Neutral front) (second : Neutral behind) : Neutral (front ++ behind) := by
  intro expected
  rw [List.foldlM_append, first expected]
  exact second expected

theorem cons (plain : ∀ expected, nest expected token = some expected) (rest : Neutral behind) :
    Neutral (token :: behind) := by
  intro expected
  rw [List.foldlM_cons, plain expected]
  exact rest expected

/-- What stands in brackets of one kind. -/
theorem enclosed {opening closing : Char} (pair : closing? opening = some closing)
    (closes : ∀ expected, nest (closing :: expected) (.symbol closing) = some expected)
    (between : Neutral inner) :
    Neutral (.symbol opening :: (inner ++ [Token.symbol closing])) := by
  intro expected
  have opened : nest expected (.symbol opening) = some (closing :: expected) := by
    simp only [nest, pair]
  rw [List.foldlM_cons, opened]
  show (inner ++ [Token.symbol closing]).foldlM nest (closing :: expected) = some expected
  rw [List.foldlM_append, between]
  show [Token.symbol closing].foldlM nest (closing :: expected) = some expected
  rw [List.foldlM_cons, closes]
  rfl

theorem parenthesized (between : Neutral inner) :
    Neutral (.symbol '(' :: (inner ++ [Token.symbol ')'])) :=
  enclosed rfl (fun _ => rfl) between

theorem indexed (between : Neutral inner) : Neutral (.symbol '[' :: (inner ++ [Token.symbol ']'])) :=
  enclosed rfl (fun _ => rfl) between

theorem inBraces (between : Neutral inner) : Neutral (braced inner) :=
  enclosed rfl (fun _ => rfl) between

theorem flatMap {ω : Type} {tokens : ω → List Token} {list : List ω}
    (each : ∀ item ∈ list, Neutral (tokens item)) : Neutral (list.flatMap tokens) := by
  induction list with
  | nil => exact nil
  | cons item rest ih =>
      rw [List.flatMap_cons]
      exact (each item List.mem_cons_self).append
        (ih fun item member => each item (List.mem_cons_of_mem _ member))

end Neutral

/-! ## Expressions -/

theorem nest_operator (operator : BinaryOperator) (expected : List Char) :
    nest expected (.symbol operator.symbol) = some expected := by
  cases operator <;> rfl

theorem nest_sign (operator : UnaryOperator) (expected : List Char) :
    nest expected (.symbol operator.symbol) = some expected := by
  cases operator <;> rfl

theorem Callee.neutral_tokens (callee : Callee) : Neutral callee.tokens := by
  cases callee with
  | own name => exact .cons (fun _ => rfl) .nil
  | member owner name =>
      exact .cons (fun _ => rfl) (.cons (fun _ => rfl) (.cons (fun _ => rfl) .nil))

mutual

theorem Term.neutral_tokens (term : Term) : Neutral term.tokens := by
  cases term with
  | element array index =>
      exact .cons (fun _ => rfl) (.indexed index.neutral_tokens)
  | call callee arguments =>
      exact callee.neutral_tokens.append (.parenthesized (neutral_argumentTokens arguments))
  | group inner => exact .parenthesized inner.neutral_tokens
  | unary operator operand => exact .cons (nest_sign operator) operand.neutral_tokens
  | integer | string | true_ | false_ | null | this | «variable» =>
      exact .cons (fun _ => rfl) .nil

theorem Expression.neutral_tokens (expression : Expression) : Neutral expression.tokens := by
  cases expression with
  | chain first rest => exact first.neutral_tokens.append (neutral_restTokens rest)

theorem neutral_restTokens (rest : List (BinaryOperator × Term)) : Neutral (restTokens rest) := by
  cases rest with
  | nil => exact .nil
  | cons step rest =>
      obtain ⟨operator, operand⟩ := step
      exact .cons (nest_operator operator)
        (operand.neutral_tokens.append (neutral_restTokens rest))

theorem neutral_argumentTokens (arguments : List Expression) :
    Neutral (argumentTokens arguments) := by
  cases arguments with
  | nil => exact .nil
  | cons argument rest => exact argument.neutral_tokens.append (neutral_furtherTokens rest)

theorem neutral_furtherTokens (arguments : List Expression) :
    Neutral (furtherTokens arguments) := by
  cases arguments with
  | nil => exact .nil
  | cons argument rest =>
      exact .cons (fun _ => rfl) (argument.neutral_tokens.append (neutral_furtherTokens rest))

end

/-! ## Statements -/

theorem neutral_conditionTokens (condition : Expression) : Neutral (conditionTokens condition) :=
  .parenthesized condition.neutral_tokens

theorem neutral_resultTokens (value : Option Expression) : Neutral (resultTokens value) := by
  cases value with
  | none => exact .nil
  | some value => exact value.neutral_tokens

mutual

theorem Statement.neutral_tokens (statement : Statement) : Neutral statement.tokens := by
  cases statement with
  | assign target value =>
      exact .cons (fun _ => rfl) (.cons (fun _ => rfl) (.cons (fun _ => rfl)
        (value.neutral_tokens.append (.cons (fun _ => rfl) .nil))))
  | assignElement array index value =>
      have behind : Neutral (.symbol '=' :: (value.tokens ++ [.symbol ';'])) :=
        .cons (fun _ => rfl) (value.neutral_tokens.append (.cons (fun _ => rfl) .nil))
      have element := (Neutral.indexed index.neutral_tokens).append behind
      rw [List.cons_append, List.append_assoc] at element
      exact .cons (fun _ => rfl) (.cons (fun _ => rfl) element)
  | branch condition body =>
      exact .cons (fun _ => rfl) ((neutral_conditionTokens condition).append
        (.inBraces (neutral_statementTokens body)))
  | choice condition whenTrue whenFalse =>
      exact .cons (fun _ => rfl) ((neutral_conditionTokens condition).append
        ((Neutral.inBraces (neutral_statementTokens whenTrue)).append
          (.cons (fun _ => rfl) (.inBraces (neutral_statementTokens whenFalse)))))
  | loop condition body =>
      exact .cons (fun _ => rfl) ((neutral_conditionTokens condition).append
        (.inBraces (neutral_statementTokens body)))
  | run callee arguments =>
      exact .cons (fun _ => rfl) ((Term.call callee arguments).neutral_tokens.append
        (.cons (fun _ => rfl) .nil))
  | leave value =>
      exact .cons (fun _ => rfl) ((neutral_resultTokens value).append (.cons (fun _ => rfl) .nil))

theorem neutral_statementTokens (statements : List Statement) :
    Neutral (statementTokens statements) := by
  cases statements with
  | nil => exact .nil
  | cons statement rest => exact statement.neutral_tokens.append (neutral_statementTokens rest)

end

/-! ## Declarations, subroutines and classes -/

theorem nest_type (type : TypeName) (expected : List Char) :
    nest expected type.token = some expected := by
  cases type <;> rfl

theorem nest_return (returns : Option TypeName) (expected : List Char) :
    nest expected (returnToken returns) = some expected := by
  cases returns with
  | none => rfl
  | some type => exact nest_type type expected

theorem Variables.neutral_tokens (group : Variables) : Neutral group.tokens := by
  have more : Neutral (group.more.flatMap fun name => [.symbol ',', .identifier name]) :=
    .flatMap fun name _ => .cons (fun _ => rfl) (.cons (fun _ => rfl) .nil)
  exact .cons (nest_type _) (.cons (fun _ => rfl) (more.append (.cons (fun _ => rfl) .nil)))

theorem neutral_parameterTokens (parameters : List Parameter) :
    Neutral (parameterTokens parameters) := by
  have one (parameter : Parameter) : Neutral parameter.tokens :=
    .cons (nest_type _) (.cons (fun _ => rfl) .nil)
  cases parameters with
  | nil => exact .nil
  | cons first rest =>
      exact (one first).append (.flatMap fun parameter _ => .cons (fun _ => rfl) (one parameter))

theorem Subroutine.neutral_tokens (subroutine : Subroutine) : Neutral subroutine.tokens := by
  have locals : Neutral (subroutine.locals.flatMap
      fun group => .keyword .var :: group.tokens) :=
    .flatMap fun group _ => .cons (fun _ => rfl) group.neutral_tokens
  have body := Neutral.inBraces (locals.append (neutral_statementTokens subroutine.body))
  have signature := (Neutral.parenthesized (neutral_parameterTokens subroutine.parameters)).append body
  rw [braced, List.cons_append, List.append_assoc, List.append_assoc] at signature
  exact .cons (fun _ => rfl) (.cons (nest_return _) (.cons (fun _ => rfl) signature))

/-- **The tokens of a class are balanced.** -/
theorem Class.balanced_tokens (cls : Class) : Balanced cls.tokens := by
  have shared : Neutral (cls.shared.flatMap (·.tokens)) :=
    .flatMap fun declaration _ => .cons (fun _ => rfl) declaration.group.neutral_tokens
  have subroutines : Neutral (cls.subroutines.flatMap (·.tokens)) :=
    .flatMap fun subroutine _ => subroutine.neutral_tokens
  have inner := Neutral.inBraces (shared.append subroutines)
  rw [braced, List.append_assoc] at inner
  exact Neutral.cons (fun _ => rfl) (.cons (fun _ => rfl) inner) []

end JackToolchain.Jack.Written

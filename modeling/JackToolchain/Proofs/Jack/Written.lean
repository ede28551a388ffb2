import JackToolchain.Counter
import JackToolchain.Jack.Expression.Parser

/-!
# Written expressions

Expressions as the grammar derives them, before a name is looked up or an operator is ordered:

* `expression ::= term (operator term)*`
* `term ::= integer | string | 'true' | 'false' | 'null' | 'this' | name | name '[' expression ']' |
  call | '(' expression ')' | ('-' | '~') term`
* `call ::= name '(' arguments ')' | name '.' name '(' arguments ')'`

## Main Definitions

* `Written.Term`, `Written.Expression` — the derivations.
* `Written.Expression.tokens` — the tokens that a derivation spells.
* `Written.Expression.names`, `Written.Expression.strings` — the names that have to be declared,
  and the string constants that have to be within bounds.
* `Written.Expression.calls`, `Written.CallsFit` — the calls, and that a counter shows what they pass.
* `Written.Expression.resolved` — the expression that a derivation stands for once every name is
  replaced by its cell.

## Design Notes

A derivation says nothing about precedence: the operators between the terms of one chain are kept in
the order in which they stand.  In which order they are computed is the subject of
`JackToolchain.Proofs.Jack.Precedence`.
-/

namespace JackToolchain.Jack.Written

/-- What a call names. -/
inductive Callee where
  /-- A subroutine of the class that is being read, called on the current object. -/
  | own (name : String)
  /-- A subroutine of the object to which a variable refers, or of another class. -/
  | member (owner name : String)

mutual

/-- An operand as it is written. -/
inductive Term where
  | integer (value : Nat)
  | string (content : String)
  | true_
  | false_
  | null
  | this
  | variable (name : String)
  | element (array : String) (index : Expression)
  | call (callee : Callee) (arguments : List Expression)
  | group (inner : Expression)
  | unary (operator : UnaryOperator) (operand : Term)

/-- Operands with binary operators between them. -/
inductive Expression where
  | chain (first : Term) (rest : List (BinaryOperator × Term))

end

/-! ## Spelling -/

/-- The tokens in front of the parenthesis of a call. -/
def Callee.tokens : Callee → List Token
  | .own name => [.identifier name]
  | .member owner name => [.identifier owner, .symbol '.', .identifier name]

mutual

/-- The tokens that spell an operand. -/
def Term.tokens : Term → List Token
  | .integer value => [.integer value]
  | .string content => [.text content]
  | .true_ => [.keyword .true_]
  | .false_ => [.keyword .false_]
  | .null => [.keyword .null]
  | .this => [.keyword .this]
  | .variable name => [.identifier name]
  | .element array index =>
    .identifier array :: .symbol '[' :: (index.tokens ++ [.symbol ']'])
  | .call callee arguments =>
    callee.tokens ++ .symbol '(' :: (argumentTokens arguments ++ [.symbol ')'])
  | .group inner => .symbol '(' :: (inner.tokens ++ [.symbol ')'])
  | .unary operator operand => .symbol operator.symbol :: operand.tokens

/-- The tokens that spell an expression. -/
def Expression.tokens : Expression → List Token
  | .chain first rest => first.tokens ++ restTokens rest

/-- The tokens of the operators and operands behind the first operand. -/
def restTokens : List (BinaryOperator × Term) → List Token
  | [] => []
  | (operator, operand) :: rest => .symbol operator.symbol :: (operand.tokens ++ restTokens rest)

/-- The tokens of the arguments of a call, with commas between them. -/
def argumentTokens : List Expression → List Token
  | [] => []
  | argument :: rest => argument.tokens ++ furtherTokens rest

/-- The tokens of the arguments behind the first one, each with a comma in front. -/
def furtherTokens : List Expression → List Token
  | [] => []
  | argument :: rest => .symbol ',' :: (argument.tokens ++ furtherTokens rest)

end

/-! ## What a reader has to check -/

mutual

/-- The names that an operand uses as variables.  The owner of a call need not be one. -/
def Term.names : Term → List String
  | .variable name => [name]
  | .element array index => array :: index.names
  | .call _ arguments => argumentNames arguments
  | .group inner => inner.names
  | .unary _ operand => operand.names
  | _ => []

/-- The names that an expression uses as variables. -/
def Expression.names : Expression → List String
  | .chain first rest => first.names ++ restNames rest

/-- The names used as variables behind the first operand. -/
def restNames : List (BinaryOperator × Term) → List String
  | [] => []
  | (_, operand) :: rest => operand.names ++ restNames rest

/-- The names that the arguments of a call use as variables. -/
def argumentNames : List Expression → List String
  | [] => []
  | argument :: rest => argument.names ++ argumentNames rest

end

mutual

/-- The string constants in an operand. -/
def Term.strings : Term → List String
  | .string content => [content]
  | .element _ index => index.strings
  | .call _ arguments => argumentStrings arguments
  | .group inner => inner.strings
  | .unary _ operand => operand.strings
  | _ => []

/-- The string constants in an expression. -/
def Expression.strings : Expression → List String
  | .chain first rest => first.strings ++ restStrings rest

/-- The string constants behind the first operand. -/
def restStrings : List (BinaryOperator × Term) → List String
  | [] => []
  | (_, operand) :: rest => operand.strings ++ restStrings rest

/-- The string constants in the arguments of a call. -/
def argumentStrings : List Expression → List String
  | [] => []
  | argument :: rest => argument.strings ++ argumentStrings rest

end

mutual

/-- The calls in an operand: what they name, and how many arguments they have. -/
def Term.calls : Term → List (Callee × Nat)
  | .element _ index => index.calls
  | .call callee arguments => (callee, arguments.length) :: argumentCalls arguments
  | .group inner => inner.calls
  | .unary _ operand => operand.calls
  | _ => []

/-- The calls in an expression. -/
def Expression.calls : Expression → List (Callee × Nat)
  | .chain first rest => first.calls ++ restCalls rest

/-- The calls behind the first operand. -/
def restCalls : List (BinaryOperator × Term) → List (Callee × Nat)
  | [] => []
  | (_, operand) :: rest => operand.calls ++ restCalls rest

/-- The calls in the arguments of a call. -/
def argumentCalls : List Expression → List (Callee × Nat)
  | [] => []
  | argument :: rest => argument.calls ++ argumentCalls rest

end

/-- The two limits on a string constant: its characters and its length have to be constants. -/
def WithinLimits (content : String) : Prop :=
  (∀ c ∈ content.toList, c.toNat ≤ 32767) ∧ content.toList.length ≤ 32767

instance (content : String) : Decidable (WithinLimits content) :=
  inferInstanceAs (Decidable (_ ∧ _))

/-! ## Resolving names -/

/-- The cell of a variable.  A name that is not declared has none; the zero constant stands in. -/
def placeOf (table : Symbol.Table) (name : String) : Place :=
  ((table.lookup? name).map Place.ofEntry).getD ⟨.constant, 0⟩

/-- The function that a call reaches: a subroutine of the own class, of the class that is the type of
a variable, or of the class with the name that stands in front of the dot. -/
def Callee.function (table : Symbol.Table) (className : String) : Callee → String
  | .own name => s!"{className}.{name}"
  | .member owner name =>
    match table.lookup? owner with
    | some entry => s!"{entry.type}.{name}"
    | none => s!"{owner}.{name}"

/-- The object on which a call works, if there is one: the current one, or that of a variable. -/
def Callee.receiver (table : Symbol.Table) : Callee → Option Place
  | .own _ => some ⟨.pointer, 0⟩
  | .member owner _ => (table.lookup? owner).map Place.ofEntry

/-- **Calls that fit**: no call passes more operands than a counter shows, the object on which it works
among them. -/
def CallsFit (table : Symbol.Table) (calls : List (Callee × Nat)) : Prop :=
  ∀ call ∈ calls, call.2 + (call.1.receiver table).toList.length ≤ largestCount

instance (table : Symbol.Table) (calls : List (Callee × Nat)) : Decidable (CallsFit table calls) :=
  inferInstanceAs (Decidable (∀ call ∈ calls, _ ≤ _))

theorem CallsFit.mono {table : Symbol.Table} {calls fewer : List (Callee × Nat)}
    (fit : CallsFit table calls) (among : fewer ⊆ calls) : CallsFit table fewer :=
  fun call member => fit call (among member)

theorem CallsFit.front {table : Symbol.Table} {front behind : List (Callee × Nat)}
    (fit : CallsFit table (front ++ behind)) : CallsFit table front :=
  fit.mono (List.subset_append_left _ _)

theorem CallsFit.behind {table : Symbol.Table} {front behind : List (Callee × Nat)}
    (fit : CallsFit table (front ++ behind)) : CallsFit table behind :=
  fit.mono (List.subset_append_right _ _)

section Resolved

variable (table : Symbol.Table) (className : String)

mutual

/-- The operand with every name replaced by its cell. -/
def Term.resolved : Term → Jack.Term
  | .integer value => .integer value
  | .string content => .string content.toList
  | .true_ => .true_
  | .false_ => .false_
  | .null => .null
  | .this => .this
  | .variable name => .variable (placeOf table name)
  | .element array index => .element (placeOf table array) index.resolved
  | .call callee arguments =>
    .call (callee.function table className) (callee.receiver table) (resolvedArguments arguments)
  | .group inner => .group inner.resolved
  | .unary operator operand => .unary operator operand.resolved

/-- The expression with every name replaced by its cell. -/
def Expression.resolved : Expression → Jack.Expression
  | .chain first rest => .chain first.resolved (resolvedRest rest)

/-- The operands behind the first one with every name replaced by its cell. -/
def resolvedRest : List (BinaryOperator × Term) → List (BinaryOperator × Jack.Term)
  | [] => []
  | (operator, operand) :: rest => (operator, operand.resolved) :: resolvedRest rest

/-- The arguments of a call with every name replaced by its cell. -/
def resolvedArguments : List Expression → List Jack.Expression
  | [] => []
  | argument :: rest => argument.resolved :: resolvedArguments rest

end

end Resolved

theorem resolvedRest_eq_map (rest : List (BinaryOperator × Term)) (table : Symbol.Table)
    (className : String) :
    resolvedRest table className rest =
      rest.map fun step => (step.1, step.2.resolved table className) := by
  induction rest with
  | nil => rfl
  | cons step rest ih =>
      obtain ⟨operator, operand⟩ := step
      rw [resolvedRest, ih]
      rfl

theorem resolvedArguments_eq_map (arguments : List Expression) (table : Symbol.Table)
    (className : String) :
    resolvedArguments table className arguments =
      arguments.map (·.resolved table className) := by
  induction arguments with
  | nil => rfl
  | cons argument rest ih =>
      rw [resolvedArguments, ih]
      rfl

end JackToolchain.Jack.Written

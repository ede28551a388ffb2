import JackToolchain.Jack.Class
import JackToolchain.Jack.Parser
import JackToolchain.Proofs.Jack.Written

/-!
# Written classes

Statements, subroutines and classes as the grammar derives them:

* `statement ::= 'let' name ('[' expression ']')? '=' expression ';' |
  'if' '(' expression ')' block ('else' block)? | 'while' '(' expression ')' block |
  'do' call ';' | 'return' expression? ';'`
* `block ::= '{' statement* '}'`
* `type ::= 'int' | 'char' | 'boolean' | name`
* `variables ::= type name (',' name)* ';'`
* `subroutine ::= ('constructor' | 'function' | 'method') (type | 'void') name
  '(' (type name (',' type name)*)? ')' '{' ('var' variables)* statement* '}'`
* `class ::= 'class' name '{' (('static' | 'field') variables)* subroutine* '}'`

## Main Definitions

* `Written.Statement`, `Written.Variables`, `Written.Subroutine`, `Written.Class` — the derivations,
  with the tokens that they spell.
* `Written.Class.Declared` — every name that is used as a variable or assigned to is declared in its
  subroutine or in the class.
* `Written.Class.WithinLimits` — every string constant is within the limits.
* `Written.Class.ReadsOn`, `Written.Class.IsCounted`, `Written.Class.CallsFit` — what the counters have to
  show for all declarations to be read, for all variables to be told apart, and for calls to be counted.
* `Written.Class.resolved` — the class that a derivation stands for, once every name is replaced by its
  cell and every branching statement has its number.

## Design Notes

Numbers are given out in the order in which the first words of branching statements stand in the text,
so the number of a statement is the number of those in front of it.
-/

namespace JackToolchain.Jack.Written

/-! ## Statements -/

/-- A statement as it is written. -/
inductive Statement where
  | assign (target : String) (value : Expression)
  | assignElement (array : String) (index value : Expression)
  /-- A branch without a second body. -/
  | branch (condition : Expression) (body : List Statement)
  /-- A branch with a second body, which may be empty. -/
  | choice (condition : Expression) (whenTrue whenFalse : List Statement)
  | loop (condition : Expression) (body : List Statement)
  | run (callee : Callee) (arguments : List Expression)
  | leave (value : Option Expression)

/-- The tokens of a condition. -/
def conditionTokens (condition : Expression) : List Token :=
  .symbol '(' :: (condition.tokens ++ [.symbol ')'])

/-- Tokens in braces. -/
def braced (inner : List Token) : List Token := .symbol '{' :: (inner ++ [.symbol '}'])

/-- The tokens of a returned value, if there is one. -/
def resultTokens : Option Expression → List Token
  | none => []
  | some value => value.tokens

mutual

/-- The tokens that spell a statement. -/
def Statement.tokens : Statement → List Token
  | .assign target value =>
    .keyword .let_ :: .identifier target :: .symbol '=' :: (value.tokens ++ [.symbol ';'])
  | .assignElement array index value =>
    .keyword .let_ :: .identifier array :: .symbol '[' ::
      (index.tokens ++ .symbol ']' :: .symbol '=' :: (value.tokens ++ [.symbol ';']))
  | .branch condition body =>
    .keyword .if_ :: (conditionTokens condition ++ braced (statementTokens body))
  | .choice condition whenTrue whenFalse =>
    .keyword .if_ :: (conditionTokens condition ++ (braced (statementTokens whenTrue) ++
      .keyword .else_ :: braced (statementTokens whenFalse)))
  | .loop condition body =>
    .keyword .while_ :: (conditionTokens condition ++ braced (statementTokens body))
  | .run callee arguments =>
    .keyword .do_ :: ((Term.call callee arguments).tokens ++ [.symbol ';'])
  | .leave value => .keyword .return_ :: (resultTokens value ++ [.symbol ';'])

/-- The tokens of statements, one after the other. -/
def statementTokens : List Statement → List Token
  | [] => []
  | statement :: rest => statement.tokens ++ statementTokens rest

end

mutual

/-- The names that a statement uses as variables or assigns to. -/
def Statement.names : Statement → List String
  | .assign target value => target :: value.names
  | .assignElement array index value => array :: (index.names ++ value.names)
  | .branch condition body => condition.names ++ statementNames body
  | .choice condition whenTrue whenFalse =>
    condition.names ++ (statementNames whenTrue ++ statementNames whenFalse)
  | .loop condition body => condition.names ++ statementNames body
  | .run _ arguments => argumentNames arguments
  | .leave value => (value.map (·.names)).getD []

/-- The names that statements use as variables or assign to. -/
def statementNames : List Statement → List String
  | [] => []
  | statement :: rest => statement.names ++ statementNames rest

end

mutual

/-- The string constants in a statement. -/
def Statement.strings : Statement → List String
  | .assign _ value => value.strings
  | .assignElement _ index value => index.strings ++ value.strings
  | .branch condition body => condition.strings ++ statementStrings body
  | .choice condition whenTrue whenFalse =>
    condition.strings ++ (statementStrings whenTrue ++ statementStrings whenFalse)
  | .loop condition body => condition.strings ++ statementStrings body
  | .run _ arguments => argumentStrings arguments
  | .leave value => (value.map (·.strings)).getD []

/-- The string constants in statements. -/
def statementStrings : List Statement → List String
  | [] => []
  | statement :: rest => statement.strings ++ statementStrings rest

end

mutual

/-- The calls in a statement. -/
def Statement.calls : Statement → List (Callee × Nat)
  | .assign _ value => value.calls
  | .assignElement _ index value => index.calls ++ value.calls
  | .branch condition body => condition.calls ++ statementCalls body
  | .choice condition whenTrue whenFalse =>
    condition.calls ++ (statementCalls whenTrue ++ statementCalls whenFalse)
  | .loop condition body => condition.calls ++ statementCalls body
  | .run callee arguments => (callee, arguments.length) :: argumentCalls arguments
  | .leave value => (value.map (·.calls)).getD []

/-- The calls in statements. -/
def statementCalls : List Statement → List (Callee × Nat)
  | [] => []
  | statement :: rest => statement.calls ++ statementCalls rest

end

mutual

/-- How many branching statements there are in a statement. -/
def Statement.branchings : Statement → Nat
  | .branch _ body => 1 + branchingsOf body
  | .choice _ whenTrue whenFalse => 1 + (branchingsOf whenTrue + branchingsOf whenFalse)
  | .loop _ body => 1 + branchingsOf body
  | _ => 0

/-- How many branching statements there are in statements. -/
def branchingsOf : List Statement → Nat
  | [] => 0
  | statement :: rest => statement.branchings + branchingsOf rest

end

section Resolved

variable (table : Symbol.Table) (className : String)

/-- The call that a written call stands for. -/
def resolvedCall (callee : Callee) (arguments : List Expression) : Jack.Call :=
  ⟨callee.function table className, callee.receiver table,
    resolvedArguments table className arguments⟩

mutual

/-- The statement with every name replaced by its cell.  Its branching statements are numbered from
`first` on. -/
def Statement.resolved (first : Nat) : Statement → Jack.Statement
  | .assign target value => .assign (placeOf table target) (value.resolved table className)
  | .assignElement array index value =>
    .assignElement (placeOf table array) (index.resolved table className)
      (value.resolved table className)
  | .branch condition body =>
    .branch first (condition.resolved table className) (resolvedStatements (first + 1) body) []
  | .choice condition whenTrue whenFalse =>
    .branch first (condition.resolved table className) (resolvedStatements (first + 1) whenTrue)
      (resolvedStatements (first + 1 + branchingsOf whenTrue) whenFalse)
  | .loop condition body =>
    .loop first (condition.resolved table className) (resolvedStatements (first + 1) body)
  | .run callee arguments => .run (resolvedCall table className callee arguments)
  | .leave value => .leave (value.map (·.resolved table className))

/-- Statements with every name replaced by its cell, numbered one after the other. -/
def resolvedStatements (first : Nat) : List Statement → List Jack.Statement
  | [] => []
  | statement :: rest =>
    statement.resolved first :: resolvedStatements (first + statement.branchings) rest

end

end Resolved

/-! ## Declarations -/

/-- A type as it is written. -/
inductive TypeName where
  | int
  | char
  | boolean
  | class_ (name : String)

/-- The token that spells a type. -/
def TypeName.token : TypeName → Token
  | .int => .keyword .int
  | .char => .keyword .char
  | .boolean => .keyword .boolean
  | .class_ name => .identifier name

/-- The name of a type. -/
def TypeName.text : TypeName → String
  | .int => Keyword.int.text
  | .char => Keyword.char.text
  | .boolean => Keyword.boolean.text
  | .class_ name => name

/-- The token that spells what a subroutine returns: a type, or `void`. -/
def returnToken : Option TypeName → Token
  | none => .keyword .void
  | some type => type.token

/-- The name of what a subroutine returns. -/
def returnText : Option TypeName → String
  | none => Keyword.void.text
  | some type => type.text

/-- One or more variables of a type. -/
structure Variables where
  type : TypeName
  first : String
  more : List String

/-- The declared names, in order. -/
def Variables.names (group : Variables) : List String := group.first :: group.more

/-- The tokens that spell a declaration behind the word that begins it. -/
def Variables.tokens (group : Variables) : List Token :=
  group.type.token :: .identifier group.first ::
    (group.more.flatMap (fun name => [.symbol ',', .identifier name]) ++ [.symbol ';'])

/-- The declarations of one kind that names of a type make. -/
def declared (kind : Symbol.Kind) (type : String) (names : List String) (table : Symbol.Table) :
    Symbol.Table :=
  names.foldl (fun table name => table.define name type kind) table

/-- What a declaration does to the symbol table. -/
def Variables.declare (kind : Symbol.Kind) (table : Symbol.Table) (group : Variables) :
    Symbol.Table :=
  declared kind group.type.text group.names table

/-- What a class declares by one word. -/
structure ClassVariables where
  /-- Whether the variables are fields rather than statics. -/
  areFields : Bool
  group : Variables

namespace ClassVariables

/-- The kind of the variables. -/
def kind (declaration : ClassVariables) : Symbol.Kind :=
  if declaration.areFields then .field else .static_

/-- The tokens that spell the declaration. -/
def tokens (declaration : ClassVariables) : List Token :=
  .keyword (if declaration.areFields then .field else .static_) :: declaration.group.tokens

/-- What the declaration does to the symbol table. -/
def declare (table : Symbol.Table) (declaration : ClassVariables) : Symbol.Table :=
  declaration.group.declare declaration.kind table

end ClassVariables

/-! ## Subroutines -/

/-- A parameter. -/
structure Parameter where
  type : TypeName
  name : String

/-- The tokens that spell a parameter. -/
def Parameter.tokens (parameter : Parameter) : List Token :=
  [parameter.type.token, .identifier parameter.name]

/-- What a parameter does to the symbol table. -/
def Parameter.declare (table : Symbol.Table) (parameter : Parameter) : Symbol.Table :=
  table.define parameter.name parameter.type.text .argument

/-- The tokens of parameters, with commas between them. -/
def parameterTokens : List Parameter → List Token
  | [] => []
  | parameter :: rest =>
    parameter.tokens ++ rest.flatMap fun parameter => .symbol ',' :: parameter.tokens

/-- The word that begins a subroutine of a kind. -/
def kindKeyword : SubroutineKind → Keyword
  | .constructor_ => .constructor_
  | .function => .function
  | .method => .method

/-- A subroutine as it is written. -/
structure Subroutine where
  kind : SubroutineKind
  /-- The type of the result; none for `void`. -/
  returns : Option TypeName
  name : String
  parameters : List Parameter
  locals : List Variables
  body : List Statement

namespace Subroutine

/-- The tokens that spell a subroutine. -/
def tokens (subroutine : Subroutine) : List Token :=
  .keyword (kindKeyword subroutine.kind) :: returnToken subroutine.returns ::
    .identifier subroutine.name :: .symbol '(' :: (parameterTokens subroutine.parameters ++
      .symbol ')' :: .symbol '{' ::
        (subroutine.locals.flatMap (fun group => .keyword .var :: group.tokens) ++
          (statementTokens subroutine.body ++ [.symbol '}'])))

/-- The tokens of a subroutine in front of its statements. -/
def heading (subroutine : Subroutine) : List Token :=
  .keyword (kindKeyword subroutine.kind) :: returnToken subroutine.returns ::
    .identifier subroutine.name :: .symbol '(' :: (parameterTokens subroutine.parameters ++
      .symbol ')' :: .symbol '{' ::
        subroutine.locals.flatMap fun group => .keyword .var :: group.tokens)

theorem tokens_eq (subroutine : Subroutine) :
    subroutine.tokens = subroutine.heading ++ (statementTokens subroutine.body ++ [.symbol '}']) := by
  simp [tokens, heading]

/-- The names of the parameters and of the local variables. -/
def declaredNames (subroutine : Subroutine) : List String :=
  subroutine.parameters.map (·.name) ++ subroutine.locals.flatMap (·.names)

/-- The symbol table in front of the parameters: a method has the current object as its first
argument. -/
def outset (kind : SubroutineKind) (className : String) (table : Symbol.Table) : Symbol.Table :=
  if kind = .method then table.clear.define Keyword.this.text className .argument else table.clear

/-- The symbol table with which the statements are read, given that of the class. -/
def table (subroutine : Subroutine) (className : String) (ofClass : Symbol.Table) : Symbol.Table :=
  subroutine.locals.foldl (Variables.declare .var)
    (subroutine.parameters.foldl Parameter.declare (outset subroutine.kind className ofClass))

/-- How many local variables are declared. -/
def localCount (subroutine : Subroutine) : Nat := (subroutine.locals.flatMap (·.names)).length

/-- How many arguments there are: the parameters, and the current object of a method. -/
def argumentCount (subroutine : Subroutine) : Nat :=
  subroutine.parameters.length + if subroutine.kind = .method then 1 else 0

/-- Behind every declaration of local variables but the last, another one is looked for: it is not
counted as one of no names. -/
def ReadsOn (subroutine : Subroutine) : Prop :=
  ∀ group ∈ subroutine.locals.dropLast, counted group.names.length ≠ 0

/-- The subroutine with every name replaced by its cell.  Its branching statements are numbered from
`first` on. -/
def resolved (className : String) (ofClass : Symbol.Table) (first : Nat)
    (subroutine : Subroutine) : Jack.Subroutine where
  kind := subroutine.kind
  name := subroutine.name
  isVoid := returnText subroutine.returns = Keyword.void.text
  locals := counted subroutine.localCount
  body := resolvedStatements (subroutine.table className ofClass) className first subroutine.body

end Subroutine

/-! ## Classes -/

/-- A class as it is written. -/
structure Class where
  name : String
  shared : List ClassVariables
  subroutines : List Subroutine

/-- Subroutines with every name replaced by its cell, numbered one after the other. -/
def resolvedSubroutines (className : String) (ofClass : Symbol.Table) :
    Nat → List Subroutine → List Jack.Subroutine
  | _, [] => []
  | first, subroutine :: rest =>
    subroutine.resolved className ofClass first ::
      resolvedSubroutines className ofClass (first + branchingsOf subroutine.body) rest

/-- How many branching statements there are in subroutines. -/
def branchingsWithin : List Subroutine → Nat
  | [] => 0
  | subroutine :: rest => branchingsOf subroutine.body + branchingsWithin rest

namespace Class

/-- The tokens that spell a class. -/
def tokens (cls : Class) : List Token :=
  .keyword .class_ :: .identifier cls.name :: .symbol '{' ::
    (cls.shared.flatMap (·.tokens) ++ (cls.subroutines.flatMap (·.tokens) ++ [.symbol '}']))

/-- The names of the statics and fields. -/
def declaredNames (cls : Class) : List String := cls.shared.flatMap (·.group.names)

/-- **Declared names.**  Every name that a subroutine uses as a variable or assigns to is declared in it
or in the class. -/
def Declared (cls : Class) : Prop :=
  ∀ subroutine ∈ cls.subroutines, ∀ name ∈ statementNames subroutine.body,
    name ∈ subroutine.declaredNames ∨ name ∈ cls.declaredNames

/-- **String constants within the limits.** -/
def WithinLimits (cls : Class) : Prop :=
  ∀ subroutine ∈ cls.subroutines, ∀ content ∈ statementStrings subroutine.body,
    Written.WithinLimits content

/-- **Declarations of local variables that are all read.** -/
def ReadsOn (cls : Class) : Prop := ∀ subroutine ∈ cls.subroutines, subroutine.ReadsOn

/-- The symbol table behind the declarations of the class. -/
def table (cls : Class) : Symbol.Table := cls.shared.foldl ClassVariables.declare {}

/-- How many fields are declared. -/
def fieldCount (cls : Class) : Nat :=
  ((cls.shared.filter (·.areFields)).flatMap (·.group.names)).length

/-- **No counter beyond its bits**: of no kind does the class or a subroutine have more variables than a
counter shows. -/
structure IsCounted (cls : Class) : Prop where
  shared : ∀ kind, ((cls.shared.filter fun d => d.kind = kind).flatMap
    (·.group.names)).length ≤ largestCount
  arguments : ∀ s ∈ cls.subroutines, s.argumentCount ≤ largestCount
  locals : ∀ s ∈ cls.subroutines, s.localCount ≤ largestCount

/-- **Calls that fit**, in every subroutine. -/
def CallsFit (cls : Class) : Prop :=
  ∀ subroutine ∈ cls.subroutines,
    Written.CallsFit (subroutine.table cls.name cls.table) (statementCalls subroutine.body)

/-- How many branching statements there are. -/
def branchings (cls : Class) : Nat := branchingsWithin cls.subroutines

/-- The class with every name replaced by its cell.  Its branching statements are numbered from `first`
on. -/
def resolved (first : Nat) (cls : Class) : Jack.Class where
  name := cls.name
  fields := counted cls.fieldCount
  subroutines := resolvedSubroutines cls.name cls.table first cls.subroutines

end Class

end JackToolchain.Jack.Written

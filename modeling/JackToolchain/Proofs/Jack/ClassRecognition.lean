import JackToolchain.Jack.Class.Parser
import JackToolchain.Proofs.Jack.ExpressionRecognition
import JackToolchain.Proofs.Jack.Scoping

/-!
# Recognizing classes

What the parsers of statements, declarations, subroutines and classes accept is what the grammar
derives.

## Main Definitions

* `RecognizesNumbered` — a parser has read the tokens of a derivation, has handed out one number for
  each branching statement in it, and returns the derivation with names resolved and numbers given.
* `Declares` — a parser has read the tokens of a declaration, has made it, and returns what belongs to it.

## Main Statements

* `recognizes_statement`, `recognizes_statements` — statements.
* `declares_classVariables`, `declares_locals`, `declares_parameters` — declarations.
* `recognizes_subroutine`, `recognizes_class` — subroutines and classes.

## Design Notes

Statements change nothing but the position and the next number, declarations nothing but the position
and the symbol table.  Each of these is put into the state from which tokens are read, so that what
is read in sequence composes by `Reads.trans`.
-/

namespace JackToolchain.Jack.Written

open JackToolchain.Jack.Parser

/-! ## Numbered derivations -/

section Numbered

variable {α ω : Type}

/-- **Recognition with numbers.**  Whenever the parser succeeds, it has read exactly the tokens of an
admissible derivation and handed out one number for each branching statement in it. -/
def RecognizesNumbered (parser : Parser α) (tokens : ω → List Token) (names strings : ω → List String)
    (branchings : ω → Nat) (resolved : Symbol.Table → String → Nat → ω → α) : Prop :=
  ∀ before result after, parser.run before = .ok result after →
    ∃ written, Reads (before.passing (branchings written)) (tokens written) after ∧
      Admissible before.table (names written) (strings written) ∧
      result = resolved before.table before.className before.nextLabel written

/-- The parser of one statement recognizes it. -/
abbrev RecognizesStatement (parser : Parser Jack.Statement) : Prop :=
  RecognizesNumbered parser Statement.tokens Statement.names Statement.strings Statement.branchings
    Statement.resolved

/-- The parser of statements recognizes them. -/
abbrev RecognizesStatements (parser : Parser (List Jack.Statement)) : Prop :=
  RecognizesNumbered parser statementTokens statementNames statementStrings branchingsOf
    resolvedStatements

end Numbered

/-! ## Statements -/

/-- A condition is recognized. -/
theorem recognizes_condition (budget : Nat) :
    Recognizes (Parser.condition budget) conditionTokens Expression.names Expression.strings
      Expression.resolved := by
  intro before result after ran
  obtain ⟨_, _, ranOpening, ran⟩ := bind_eq_ok ran
  obtain ⟨condition, _, ranCondition, ran⟩ := bind_eq_ok ran
  obtain ⟨_, _, ranClosing, ran⟩ := bind_eq_ok ran
  obtain ⟨rfl, rfl⟩ := pure_eq_ok ran
  have opening := expectSymbol_eq_ok ranOpening
  obtain ⟨written, reads, admissible, rfl⟩ := recognizes_value budget _ _ _ ranCondition
  rw [opening.table] at admissible
  rw [opening.table, opening.className]
  exact ⟨written, opening.trans (reads.trans (expectSymbol_eq_ok ranClosing)), admissible, rfl⟩

/-- Statements in braces are recognized. -/
theorem recognizes_block {statements : Parser (List Jack.Statement)}
    (body : RecognizesStatements statements) :
    RecognizesNumbered (block statements) (fun written => braced (statementTokens written))
      statementNames statementStrings branchingsOf resolvedStatements := by
  intro before result after ran
  obtain ⟨_, _, ranOpening, ran⟩ := bind_eq_ok ran
  obtain ⟨inner, _, ranBody, ran⟩ := bind_eq_ok ran
  obtain ⟨_, _, ranClosing, ran⟩ := bind_eq_ok ran
  obtain ⟨rfl, rfl⟩ := pure_eq_ok ran
  have opening := expectSymbol_eq_ok ranOpening
  obtain ⟨written, reads, admissible, rfl⟩ := body _ _ _ ranBody
  rw [opening.table] at admissible
  rw [opening.table, opening.className, opening.nextLabel]
  exact ⟨written, (opening.passing _).trans (reads.trans (expectSymbol_eq_ok ranClosing)),
    admissible, rfl⟩

/-- An assignment is recognized. -/
theorem recognizes_assignment (budget : Nat) : RecognizesStatement (assignment budget) := by
  intro before result after ran
  obtain ⟨_, _, ranLet, ran⟩ := bind_eq_ok ran
  obtain ⟨name, between, ranName, ranTarget⟩ := bind_eq_ok ran
  obtain ⟨hit, _, eaten, ranBehind⟩ := bind_eq_ok ranTarget
  have target := (expectKeyword_eq_ok ranLet).trans (identifier_eq_ok ranName)
  rcases eatSymbol_eq_ok eaten with ⟨rfl, bracket⟩ | ⟨rfl, rfl⟩
  · -- the array is looked up before its index is read
    rw [if_pos rfl] at ranBehind
    obtain ⟨array, _, ranPlace, ran⟩ := bind_eq_ok ranBehind
    obtain ⟨index, _, ranIndex, ran⟩ := bind_eq_ok ran
    obtain ⟨_, _, ranClosing, ran⟩ := bind_eq_ok ran
    obtain ⟨_, _, ranEquals, ran⟩ := bind_eq_ok ran
    obtain ⟨value, _, ranValue, ran⟩ := bind_eq_ok ran
    obtain ⟨_, _, ranEnd, ran⟩ := bind_eq_ok ran
    obtain ⟨rfl, rfl⟩ := pure_eq_ok ran
    have opening := target.trans bracket
    obtain ⟨declared, rfl, rfl⟩ := place_declared ranPlace
    obtain ⟨writtenIndex, readsIndex, admissibleIndex, rfl⟩ :=
      recognizes_value budget _ _ _ ranIndex
    have equals := opening.trans (readsIndex.trans
      ((expectSymbol_eq_ok ranClosing).trans (expectSymbol_eq_ok ranEquals)))
    obtain ⟨written, reads, admissible, rfl⟩ := recognizes_value budget _ _ _ ranValue
    rw [opening.table] at declared admissibleIndex
    rw [equals.table] at admissible
    rw [equals.table, equals.className, opening.table, opening.className]
    refine ⟨.assignElement name writtenIndex written, ?_, ⟨?_, ?_⟩, rfl⟩
    · have read := equals.trans (reads.trans (expectSymbol_eq_ok ranEnd))
      simpa [Statement.tokens, Statement.branchings] using read
    · exact List.forall_mem_cons.mpr ⟨declared, (admissibleIndex.append admissible).declared⟩
    · exact (admissibleIndex.append admissible).limits
  · -- a variable is looked up behind its value
    obtain ⟨_, _, ranEquals, ran⟩ := bind_eq_ok ranBehind
    obtain ⟨value, _, ranValue, ran⟩ := bind_eq_ok ran
    obtain ⟨place, _, ranPlace, ran⟩ := bind_eq_ok ran
    obtain ⟨_, _, ranEnd, ran⟩ := bind_eq_ok ran
    obtain ⟨rfl, rfl⟩ := pure_eq_ok ran
    have equals := target.trans (expectSymbol_eq_ok ranEquals)
    obtain ⟨written, reads, admissible, rfl⟩ := recognizes_value budget _ _ _ ranValue
    obtain ⟨declared, rfl, rfl⟩ := place_declared ranPlace
    rw [(equals.trans reads).table] at declared ⊢
    rw [equals.table] at admissible
    rw [equals.table, equals.className]
    refine ⟨.assign name written, ?_, ⟨?_, admissible.limits⟩, rfl⟩
    · have read := equals.trans (reads.trans (expectSymbol_eq_ok ranEnd))
      simpa [Statement.tokens, Statement.branchings] using read
    · exact List.forall_mem_cons.mpr ⟨declared, admissible.declared⟩

/-- A branch is recognized. -/
theorem recognizes_branch {statements : Parser (List Jack.Statement)}
    (body : RecognizesStatements statements) (budget : Nat) :
    RecognizesStatement (branch statements budget) := by
  intro before result after ran
  obtain ⟨number, _, ranNumber, ran⟩ := bind_eq_ok ran
  obtain ⟨_, _, ranIf, ran⟩ := bind_eq_ok ran
  obtain ⟨condition, _, ranCondition, ran⟩ := bind_eq_ok ran
  obtain ⟨whenTrue, between, ranTrue, ranElse⟩ := bind_eq_ok ran
  obtain ⟨hit, _, eaten, ranBehind⟩ := bind_eq_ok ranElse
  obtain ⟨rfl, rfl⟩ := freshLabel_eq_ok ranNumber
  have begun := expectKeyword_eq_ok ranIf
  obtain ⟨writtenCondition, readsCondition, admissibleCondition, rfl⟩ :=
    recognizes_condition budget _ _ _ ranCondition
  have tested := begun.trans readsCondition
  obtain ⟨first, readsFirst, admissibleFirst, rfl⟩ := recognizes_block body _ _ _ ranTrue
  have done := (tested.passing (branchingsOf first)).trans readsFirst
  rw [begun.table] at admissibleCondition
  rw [tested.table] at admissibleFirst
  -- with a second body the statement is a choice, and without one a branch
  rcases eatKeyword_eq_ok eaten with ⟨rfl, otherwise⟩ | ⟨rfl, rfl⟩
  · rw [if_pos rfl] at ranBehind
    obtain ⟨whenFalse, _, ranFalse, ran⟩ := bind_eq_ok ranBehind
    obtain ⟨rfl, rfl⟩ := pure_eq_ok ran
    obtain ⟨second, readsSecond, admissibleSecond, rfl⟩ := recognizes_block body _ _ _ ranFalse
    have entered := done.trans otherwise
    rw [entered.table] at admissibleSecond
    rw [entered.table, entered.className, entered.nextLabel, begun.table, begun.className,
      tested.table, tested.className, tested.nextLabel]
    refine ⟨.choice writtenCondition first second, ?_,
      admissibleCondition.append (admissibleFirst.append admissibleSecond), rfl⟩
    have read := (entered.passing (branchingsOf second)).trans readsSecond
    rw [State.passing_passing, State.passing_passing] at read
    simpa [Statement.tokens, Statement.branchings] using read
  · obtain ⟨whenFalse, _, ranFalse, ran⟩ := bind_eq_ok ranBehind
    obtain ⟨rfl, rfl⟩ := pure_eq_ok ranFalse
    obtain ⟨rfl, rfl⟩ := pure_eq_ok ran
    rw [begun.table, begun.className, tested.table, tested.className, tested.nextLabel]
    refine ⟨.branch writtenCondition first, ?_, admissibleCondition.append admissibleFirst, rfl⟩
    rw [State.passing_passing] at done
    simpa [Statement.tokens, Statement.branchings] using done

/-- A loop is recognized. -/
theorem recognizes_loop {statements : Parser (List Jack.Statement)}
    (body : RecognizesStatements statements) (budget : Nat) :
    RecognizesStatement (loop statements budget) := by
  intro before result after ran
  obtain ⟨number, _, ranNumber, ran⟩ := bind_eq_ok ran
  obtain ⟨_, _, ranWhile, ran⟩ := bind_eq_ok ran
  obtain ⟨condition, _, ranCondition, ran⟩ := bind_eq_ok ran
  obtain ⟨inner, _, ranBody, ran⟩ := bind_eq_ok ran
  obtain ⟨rfl, rfl⟩ := pure_eq_ok ran
  obtain ⟨rfl, rfl⟩ := freshLabel_eq_ok ranNumber
  have begun := expectKeyword_eq_ok ranWhile
  obtain ⟨writtenCondition, readsCondition, admissibleCondition, rfl⟩ :=
    recognizes_condition budget _ _ _ ranCondition
  have tested := begun.trans readsCondition
  obtain ⟨written, readsBody, admissibleBody, rfl⟩ := recognizes_block body _ _ _ ranBody
  rw [begun.table] at admissibleCondition
  rw [tested.table] at admissibleBody
  rw [begun.table, begun.className, tested.table, tested.className, tested.nextLabel]
  refine ⟨.loop writtenCondition written, ?_, admissibleCondition.append admissibleBody, rfl⟩
  have read := (tested.passing (branchingsOf written)).trans readsBody
  rw [State.passing_passing] at read
  simpa [Statement.tokens, Statement.branchings] using read

/-- A call as a statement is recognized. -/
theorem recognizes_callStatement (budget : Nat) : RecognizesStatement (callStatement budget) := by
  intro before result after ran
  obtain ⟨_, _, ranDo, ran⟩ := bind_eq_ok ran
  obtain ⟨call, _, ranCall, ran⟩ := bind_eq_ok ran
  obtain ⟨_, _, ranEnd, ran⟩ := bind_eq_ok ran
  obtain ⟨rfl, rfl⟩ := pure_eq_ok ran
  have begun := expectKeyword_eq_ok ranDo
  obtain ⟨⟨callee, arguments⟩, reads, admissible, rfl⟩ :=
    recognizes_call (recognizes_value budget) budget _ _ _ ranCall
  rw [begun.table] at admissible
  rw [begun.table, begun.className]
  exact ⟨.run callee arguments, begun.trans (reads.trans (expectSymbol_eq_ok ranEnd)), admissible,
    rfl⟩

/-- A return is recognized. -/
theorem recognizes_leave (budget : Nat) : RecognizesStatement (Parser.leave budget) := by
  intro before result after ran
  obtain ⟨_, _, ranReturn, ran⟩ := bind_eq_ok ran
  obtain ⟨ends, _, looked, ranBehind⟩ := bind_eq_ok ran
  obtain ⟨rfl, rfl⟩ := isNext_eq_ok looked
  have begun := expectKeyword_eq_ok ranReturn
  split at ranBehind
  · obtain ⟨value, _, ranNone, ranRest⟩ := bind_eq_ok ranBehind
    obtain ⟨_, _, ranEnd, ranReturned⟩ := bind_eq_ok ranRest
    obtain ⟨rfl, rfl⟩ := pure_eq_ok ranNone
    obtain ⟨rfl, rfl⟩ := pure_eq_ok ranReturned
    exact ⟨.leave none, begun.trans (expectSymbol_eq_ok ranEnd), Admissible.nil _, rfl⟩
  · obtain ⟨value, _, ranSome, ranRest⟩ := bind_eq_ok ranBehind
    obtain ⟨_, _, ranEnd, ranReturned⟩ := bind_eq_ok ranRest
    obtain ⟨value, ranValue, rfl⟩ := map_eq_ok ranSome
    obtain ⟨rfl, rfl⟩ := pure_eq_ok ranReturned
    obtain ⟨written, reads, admissible, rfl⟩ := recognizes_value budget _ _ _ ranValue
    rw [begun.table] at admissible
    rw [begun.table, begun.className]
    exact ⟨.leave (some written), begun.trans (reads.trans (expectSymbol_eq_ok ranEnd)),
      admissible, rfl⟩

/-- A statement parser reads nothing where it finds no statement, and recognizes what it finds. -/
structure RecognizesNext (statement? : Parser (Option Jack.Statement)) : Prop where
  absent : ∀ before after, statement?.run before = .ok none after → after = before
  present : ∀ before result after, statement?.run before = .ok (some result) after →
    ∃ written : Statement, Reads (before.passing written.branchings) written.tokens after ∧
      Admissible before.table written.names written.strings ∧
      result = written.resolved before.table before.className before.nextLabel

/-- Statements that are recognized one by one are recognized together. -/
theorem recognizes_statements_of_next {statement? : Parser (Option Jack.Statement)}
    (next : RecognizesNext statement?) (budget : Nat) :
    RecognizesStatements (many statement? budget) := by
  intro before result after ran
  have repeated := repeated_of_many next.absent ran
  clear ran
  induction repeated with
  | nil state => exact ⟨[], Reads.refl state, Admissible.nil _, rfl⟩
  | cons ranFirst repeated ih =>
      obtain ⟨written, reads, admissible, rfl⟩ := next.present _ _ _ ranFirst
      obtain ⟨others, readsOthers, admissibleOthers, rfl⟩ := ih
      rw [reads.table] at admissibleOthers
      rw [reads.table, reads.className, reads.nextLabel]
      refine ⟨written :: others, ?_, admissible.append admissibleOthers, rfl⟩
      have read := (reads.passing (branchingsOf others)).trans readsOthers
      rwa [State.passing_passing] at read

/-- What a recognizing parser returns is the next statement. -/
theorem present_of_map {parser : Parser Jack.Statement} (recognizes : RecognizesStatement parser)
    {before after : State} {result : Jack.Statement}
    (ran : (some <$> parser).run before = .ok (some result) after) :
    ∃ written : Statement, Reads (before.passing written.branchings) written.tokens after ∧
      Admissible before.table written.names written.strings ∧
      result = written.resolved before.table before.className before.nextLabel := by
  obtain ⟨value, ranValue, same⟩ := map_eq_ok ran
  obtain rfl := Option.some.inj same
  exact recognizes _ _ _ ranValue

/-- A statement that is there is returned. -/
theorem not_absent_of_map {α : Type} {parser : Parser α} {before after : State}
    (ran : (some <$> parser).run before = .ok none after) : False := by
  obtain ⟨value, -, same⟩ := map_eq_ok ran
  exact Option.some_ne_none value same

/-- **A statement** is recognized by its first word. -/
theorem recognizes_statement (budget : Nat) : RecognizesNext (statement budget) := by
  induction budget with
  | zero =>
      constructor
      · intro before after ran
        exact (pure_eq_ok ran).2
      · intro before result after ran
        exact absurd (pure_eq_ok ran).1 (Option.some_ne_none _)
  | succ budget next =>
      have body := recognizes_statements_of_next next budget
      constructor
      · intro before after ran
        obtain ⟨_, _, looked, ran⟩ := bind_eq_ok ran
        obtain ⟨rfl, rfl⟩ := peek?_eq_ok looked
        split at ran
        · exact (not_absent_of_map ran).elim
        · exact (not_absent_of_map ran).elim
        · exact (not_absent_of_map ran).elim
        · exact (not_absent_of_map ran).elim
        · exact (not_absent_of_map ran).elim
        · exact (pure_eq_ok ran).2
      · intro before result after ran
        obtain ⟨_, _, looked, ran⟩ := bind_eq_ok ran
        obtain ⟨rfl, rfl⟩ := peek?_eq_ok looked
        split at ran
        · exact present_of_map (recognizes_assignment budget) ran
        · exact present_of_map (recognizes_branch body budget) ran
        · exact present_of_map (recognizes_loop body budget) ran
        · exact present_of_map (recognizes_callStatement budget) ran
        · exact present_of_map (recognizes_leave budget) ran
        · exact absurd (pure_eq_ok ran).1 (Option.some_ne_none _)

/-- **Statements** are recognized. -/
theorem recognizes_statements (budget : Nat) : RecognizesStatements (statements budget) :=
  recognizes_statements_of_next (recognizes_statement budget) budget

/-! ## Declarations -/

section Declarations

variable {α ω : Type}

/-- **Declaring.**  Whenever the parser succeeds, it has read exactly the tokens of a declaration, has
made it, and returns what belongs to it. -/
def Declares (parser : Parser α) (tokens : ω → List Token)
    (declare : Symbol.Table → ω → Symbol.Table) (value : ω → α) : Prop :=
  ∀ before result after, parser.run before = .ok result after →
    ∃ written, Reads (before.declaring (declare before.table written)) (tokens written) after ∧
      result = value written

/-- **Declaring what may be absent.** -/
structure DeclaresItem (item? : Parser (Option α)) (tokens : ω → List Token)
    (declare : Symbol.Table → ω → Symbol.Table) (value : ω → α) : Prop where
  absent : ∀ before after, item?.run before = .ok none after → after = before
  present : ∀ before result after, item?.run before = .ok (some result) after →
    ∃ written, Reads (before.declaring (declare before.table written)) (tokens written) after ∧
      result = value written

variable {tokens : ω → List Token} {declare : Symbol.Table → ω → Symbol.Table} {value : ω → α}

/-- Declarations one after the other. -/
theorem declares_many {item? : Parser (Option α)} (item : DeclaresItem item? tokens declare value)
    (budget : Nat) :
    Declares (many item? budget) (List.flatMap tokens) (List.foldl declare) (List.map value) := by
  intro before result after ran
  have repeated := repeated_of_many item.absent ran
  clear ran
  induction repeated with
  | nil state => exact ⟨[], Reads.refl state, rfl⟩
  | @cons before between after _ _ ranItem repeated ih =>
      obtain ⟨written, reads, rfl⟩ := item.present _ _ _ ranItem
      obtain ⟨others, readsOthers, rfl⟩ := ih
      refine ⟨written :: others, ?_, rfl⟩
      rw [reads.table] at readsOthers
      exact (reads.declaring _).trans readsOthers

/-- Declarations with commas between them. -/
theorem declares_commaSeparated {item : Parser α} (declares : Declares item tokens declare value)
    (budget : Nat) :
    Declares (commaSeparated item budget)
      (fun (list : ω × List ω) =>
        tokens list.1 ++ list.2.flatMap fun written => .symbol ',' :: tokens written)
      (fun table list => (list.1 :: list.2).foldl declare table)
      fun list => (list.1 :: list.2).map value := by
  have furtherItem : DeclaresItem (further item) (fun written => .symbol ',' :: tokens written)
      declare value := by
    constructor
    · intro before after ran
      exact further_eq_none ran
    · intro before result after ran
      obtain ⟨between, comma, ran⟩ := further_eq_some ran
      obtain ⟨written, reads, rfl⟩ := declares _ _ _ ran
      rw [comma.table] at reads
      exact ⟨written, (comma.declaring _).trans reads, rfl⟩
  intro before result after ran
  obtain ⟨first, between, ranFirst, ran⟩ := bind_eq_ok ran
  obtain ⟨others, between', ranOthers, ran⟩ := bind_eq_ok ran
  obtain ⟨rfl, rfl⟩ := pure_eq_ok ran
  obtain ⟨written, reads, rfl⟩ := declares _ _ _ ranFirst
  obtain ⟨more, readsMore, rfl⟩ := declares_many furtherItem budget _ _ _ ranOthers
  rw [reads.table] at readsMore
  exact ⟨(written, more), (reads.declaring _).trans readsMore, rfl⟩

end Declarations

/-- A type that is no result is spelled by one token. -/
theorem typeName_of_typeOf? {token : Token} {type : String}
    (isType : typeOf? false token = some type) :
    ∃ written : TypeName, token = written.token ∧ type = written.text := by
  unfold typeOf? at isType
  split at isType
  · rename_i name
    exact ⟨.class_ name, rfl, (Option.some.inj isType).symm⟩
  · exact ⟨.int, rfl, (Option.some.inj isType).symm⟩
  · exact ⟨.char, rfl, (Option.some.inj isType).symm⟩
  · exact ⟨.boolean, rfl, (Option.some.inj isType).symm⟩
  · exact absurd isType (by simp)
  · exact absurd isType (by simp)

/-- So is the type of a result. -/
theorem returns_of_typeOf? {token : Token} {type : String}
    (isType : typeOf? true token = some type) :
    ∃ returns : Option TypeName, token = returnToken returns ∧ type = returnText returns := by
  unfold typeOf? at isType
  split at isType
  · rename_i name
    exact ⟨some (.class_ name), rfl, (Option.some.inj isType).symm⟩
  · exact ⟨some .int, rfl, (Option.some.inj isType).symm⟩
  · exact ⟨some .char, rfl, (Option.some.inj isType).symm⟩
  · exact ⟨some .boolean, rfl, (Option.some.inj isType).symm⟩
  · exact ⟨none, rfl, (Option.some.inj isType).symm⟩
  · exact absurd isType (by simp)

/-- A type is read. -/
theorem type_eq_ok {before after : State} {type : String}
    (ran : (Parser.typeName false).run before = .ok type after) :
    ∃ written : TypeName, Reads before [written.token] after ∧ type = written.text := by
  obtain ⟨token, isType, reads⟩ := typeName_eq_ok ran
  obtain ⟨written, rfl, rfl⟩ := typeName_of_typeOf? isType
  exact ⟨written, reads, rfl⟩

/-- Variables of one type are declared and counted. -/
theorem declares_declarations (kind : Symbol.Kind) (budget : Nat) :
    Declares (declarations kind budget) Variables.tokens (Variables.declare kind)
      fun group => counted group.names.length := by
  intro before result after ran
  obtain ⟨type, _, ranType, ran⟩ := bind_eq_ok ran
  obtain ⟨count, _, ranNames, ran⟩ := bind_eq_ok ran
  obtain ⟨_, _, ranEnd, ran⟩ := bind_eq_ok ran
  obtain ⟨rfl, rfl⟩ := pure_eq_ok ran
  obtain ⟨_, _, ranNames, ran⟩ := bind_eq_ok ranNames
  obtain ⟨rfl, rfl⟩ := pure_eq_ok ran
  obtain ⟨written, readsType, rfl⟩ := type_eq_ok ranType
  have name : Declares (do define (← identifier) written.text kind)
      (fun name => [Token.identifier name])
      (fun table name => table.define name written.text kind) fun _ => () := by
    intro before result after ran
    obtain ⟨name, between, ranName, ran⟩ := bind_eq_ok ran
    have reads := identifier_eq_ok ranName
    obtain rfl := define_eq_ok ran
    rw [reads.table]
    exact ⟨name, reads.declaring _, rfl⟩
  obtain ⟨⟨first, more⟩, readsNames, rfl⟩ := declares_commaSeparated name budget _ _ _ ranNames
  rw [readsType.table] at readsNames
  refine ⟨⟨written, first, more⟩, ?_, ?_⟩
  · exact (readsType.declaring _).trans (readsNames.trans (expectSymbol_eq_ok ranEnd))
  · rw [List.length_map]
    rfl

/-- The kind of class variables is their first word, if they have one. -/
theorem classVariableKind?_eq_ok {before after : State} {kind : Option Symbol.Kind}
    (ran : classVariableKind?.run before = .ok kind after) :
    (∃ areFields : Bool, Reads before [.keyword (if areFields then .field else .static_)] after ∧
      kind = some (if areFields then .field else .static_)) ∨ (kind = none ∧ after = before) := by
  obtain ⟨hit, between, eaten, ranBehind⟩ := bind_eq_ok ran
  rcases eatKeyword_eq_ok eaten with ⟨rfl, reads⟩ | ⟨rfl, rfl⟩
  · obtain ⟨rfl, rfl⟩ := pure_eq_ok ranBehind
    exact .inl ⟨false, reads, rfl⟩
  · obtain ⟨hit, between, eaten, ranRest⟩ := bind_eq_ok ranBehind
    rcases eatKeyword_eq_ok eaten with ⟨rfl, reads⟩ | ⟨rfl, rfl⟩
    · obtain ⟨rfl, rfl⟩ := pure_eq_ok ranRest
      exact .inl ⟨true, reads, rfl⟩
    · obtain ⟨rfl, rfl⟩ := pure_eq_ok ranRest
      exact .inr ⟨rfl, rfl⟩

/-- Statics and fields are declared. -/
theorem declares_classVariables (budget : Nat) :
    DeclaresItem (classVariables budget) ClassVariables.tokens ClassVariables.declare fun _ => () := by
  constructor
  · intro before after ran
    obtain ⟨kind, between, ranKind, ranBehind⟩ := bind_eq_ok ran
    rcases classVariableKind?_eq_ok ranKind with ⟨areFields, -, rfl⟩ | ⟨rfl, rfl⟩
    · obtain ⟨_, _, -, ranLast⟩ := bind_eq_ok ranBehind
      exact absurd (pure_eq_ok ranLast).1.symm (Option.some_ne_none _)
    · exact (pure_eq_ok ranBehind).2
  · intro before result after ran
    obtain ⟨kind, between, ranKind, ranBehind⟩ := bind_eq_ok ran
    rcases classVariableKind?_eq_ok ranKind with ⟨areFields, reads, rfl⟩ | ⟨rfl, rfl⟩
    · obtain ⟨_, _, ran, ranLast⟩ := bind_eq_ok ranBehind
      obtain ⟨-, rfl⟩ := pure_eq_ok ranLast
      obtain ⟨written, readsBehind, -⟩ := declares_declarations _ budget _ _ _ ran
      rw [reads.table] at readsBehind
      exact ⟨⟨areFields, written⟩, (reads.declaring _).trans readsBehind, rfl⟩
    · exact absurd (pure_eq_ok ranBehind).1 (Option.some_ne_none _)

/-- Local variables are declared and counted, if there are any. -/
theorem localVariables_eq_ok {budget count : Nat} {before after : State}
    (ran : (localVariables budget).run before = .ok count after) :
    (∃ group : Variables, Reads (before.declaring (group.declare .var before.table))
        (.keyword .var :: group.tokens) after ∧ count = counted group.names.length) ∨
      (count = 0 ∧ after = before) := by
  obtain ⟨hit, between, eaten, ranBehind⟩ := bind_eq_ok ran
  rcases eatKeyword_eq_ok eaten with ⟨rfl, reads⟩ | ⟨rfl, rfl⟩
  · obtain ⟨group, readsBehind, rfl⟩ := declares_declarations _ budget _ _ _ ranBehind
    rw [reads.table] at readsBehind
    exact .inl ⟨group, (reads.declaring _).trans readsBehind, rfl⟩
  · obtain ⟨rfl, rfl⟩ := pure_eq_ok ranBehind
    exact .inr ⟨rfl, rfl⟩

/-- Local variables are declared line by line, and no line in front of another is counted as one of no
names. -/
theorem declares_locals {budget lines : Nat} {before after : State}
    (ran : (Parser.locals budget lines).run before = .ok () after) :
    ∃ groups : List Variables,
      Reads (before.declaring (groups.foldl (Variables.declare .var) before.table))
        (groups.flatMap fun group => .keyword .var :: group.tokens) after ∧
      ∀ group ∈ groups.dropLast, counted group.names.length ≠ 0 := by
  induction lines generalizing before with
  | zero =>
      obtain ⟨-, rfl⟩ := pure_eq_ok ran
      exact ⟨[], Reads.refl _, List.forall_mem_nil _⟩
  | succ lines ih =>
      obtain ⟨count, between, ranLine, ranBehind⟩ := bind_eq_ok ran
      rcases localVariables_eq_ok ranLine with ⟨group, reads, rfl⟩ | ⟨rfl, rfl⟩
      · split at ranBehind
        · rename_i goesOn
          obtain ⟨groups, readsMore, readsOn⟩ := ih ranBehind
          rw [reads.table] at readsMore
          refine ⟨group :: groups, (reads.declaring _).trans readsMore, ?_⟩
          cases groups with
          | nil => exact List.forall_mem_nil _
          | cons => exact List.forall_mem_cons.mpr ⟨Nat.ne_of_gt goesOn, readsOn⟩
        · obtain ⟨-, rfl⟩ := pure_eq_ok ranBehind
          exact ⟨[group], by simpa using reads, List.forall_mem_nil _⟩
      · obtain ⟨-, rfl⟩ := pure_eq_ok ranBehind
        exact ⟨[], Reads.refl _, List.forall_mem_nil _⟩

/-- Parameters are declared. -/
theorem declares_parameters (budget : Nat) :
    Declares (parameters budget) parameterTokens (List.foldl Parameter.declare) fun _ => () := by
  have item : Declares Parser.parameter Parameter.tokens Parameter.declare fun _ => () := by
    intro before result after ran
    obtain ⟨type, _, ranType, ran⟩ := bind_eq_ok ran
    obtain ⟨name, between, ranName, ran⟩ := bind_eq_ok ran
    obtain ⟨written, readsType, rfl⟩ := type_eq_ok ranType
    have reads := readsType.trans (identifier_eq_ok ranName)
    obtain rfl := define_eq_ok ran
    rw [reads.table]
    exact ⟨⟨written, name⟩, reads.declaring _, rfl⟩
  intro before result after ran
  obtain ⟨closes, _, looked, ran⟩ := bind_eq_ok ran
  obtain ⟨rfl, rfl⟩ := isNext_eq_ok looked
  split at ran
  · obtain ⟨-, rfl⟩ := pure_eq_ok ran
    exact ⟨[], Reads.refl _, rfl⟩
  · obtain ⟨_, _, ranParameters, ran⟩ := bind_eq_ok ran
    obtain ⟨-, rfl⟩ := pure_eq_ok ran
    obtain ⟨⟨first, others⟩, reads, -⟩ := declares_commaSeparated item budget _ _ _ ranParameters
    exact ⟨first :: others, reads, rfl⟩

/-! ## Subroutines -/

/-- The kind of a subroutine is read off its first word. -/
theorem subroutineKind?_eq_ok {before after : State} {found : Option SubroutineKind}
    (ran : subroutineKind?.run before = .ok found after) :
    (∃ kind, Reads before [.keyword (kindKeyword kind)] after ∧ found = some kind) ∨
      (found = none ∧ after = before) := by
  obtain ⟨hit, between, eaten, ranBehind⟩ := bind_eq_ok ran
  rcases eatKeyword_eq_ok eaten with ⟨rfl, reads⟩ | ⟨rfl, rfl⟩
  · obtain ⟨rfl, rfl⟩ := pure_eq_ok ranBehind
    exact .inl ⟨.constructor_, reads, rfl⟩
  · obtain ⟨hit, between, eaten, ranSecond⟩ := bind_eq_ok ranBehind
    rcases eatKeyword_eq_ok eaten with ⟨rfl, reads⟩ | ⟨rfl, rfl⟩
    · obtain ⟨rfl, rfl⟩ := pure_eq_ok ranSecond
      exact .inl ⟨.function, reads, rfl⟩
    · obtain ⟨hit, between, eaten, ranThird⟩ := bind_eq_ok ranSecond
      rcases eatKeyword_eq_ok eaten with ⟨rfl, reads⟩ | ⟨rfl, rfl⟩
      · obtain ⟨rfl, rfl⟩ := pure_eq_ok ranThird
        exact .inl ⟨.method, reads, rfl⟩
      · obtain ⟨rfl, rfl⟩ := pure_eq_ok ranThird
        exact .inr ⟨rfl, rfl⟩

/-- The previous subroutine is forgotten. -/
theorem beginSubroutine_eq_ok {kind : SubroutineKind} {before after : State} {result : Unit}
    (ran : (beginSubroutine kind).run before = .ok result after) :
    after = before.declaring (Subroutine.outset kind before.className before.table) := by
  obtain ⟨_, between, cleared, ran⟩ := bind_eq_ok ran
  obtain rfl := modify_eq_ok cleared
  unfold Subroutine.outset
  split at ran
  · rename_i isMethod
    obtain ⟨state, _, got, ran⟩ := bind_eq_ok ran
    obtain ⟨rfl, rfl⟩ := get_eq_ok got
    obtain rfl := define_eq_ok ran
    rw [if_pos isMethod]
    rfl
  · rename_i other
    obtain ⟨-, rfl⟩ := pure_eq_ok ran
    rw [if_neg other]
    rfl

/-- **A subroutine** is recognized behind the word that begins it.  Its statements are read with the
symbol table that its declarations have made. -/
theorem recognizes_subroutineOf {kind : SubroutineKind} {budget : Nat} {before after : State}
    {result : Jack.Subroutine}
    (ran : (subroutineOf kind budget).run before = .ok result after) :
    ∃ written : Subroutine, written.kind = kind ∧ written.ReadsOn ∧
      Reads ((before.declaring (written.table before.className before.table)).passing
        (branchingsOf written.body)) (written.tokens.tail) after ∧
      Admissible (written.table before.className before.table) (statementNames written.body)
        (statementStrings written.body) ∧
      result = written.resolved before.className before.table before.nextLabel := by
  obtain ⟨_, between, begun, ran⟩ := bind_eq_ok ran
  obtain ⟨type, _, ranType, ran⟩ := bind_eq_ok ran
  obtain ⟨name, _, ranName, ran⟩ := bind_eq_ok ran
  obtain ⟨_, _, ranOpening, ran⟩ := bind_eq_ok ran
  obtain ⟨_, _, ranParameters, ran⟩ := bind_eq_ok ran
  obtain ⟨_, _, ranClosing, ran⟩ := bind_eq_ok ran
  obtain ⟨_, _, ranBrace, ran⟩ := bind_eq_ok ran
  obtain ⟨_, _, ranLocals, ran⟩ := bind_eq_ok ran
  obtain ⟨_, inside, got, ranRest⟩ := bind_eq_ok ran
  obtain ⟨body, _, ranBody, ranLast⟩ := bind_eq_ok ranRest
  obtain ⟨_, _, ranEnd, ranResult⟩ := bind_eq_ok ranLast
  obtain ⟨rfl, rfl⟩ := get_eq_ok got
  obtain ⟨rfl, rfl⟩ := pure_eq_ok ranResult
  obtain rfl := beginSubroutine_eq_ok begun
  obtain ⟨token, isType, readsType⟩ := typeName_eq_ok ranType
  obtain ⟨returns, rfl, rfl⟩ := returns_of_typeOf? isType
  have header := readsType.trans ((identifier_eq_ok ranName).trans (expectSymbol_eq_ok ranOpening))
  obtain ⟨parameters, readsParameters, -⟩ := declares_parameters budget _ _ _ ranParameters
  have signature := (header.declaring _).trans (readsParameters.trans
    ((expectSymbol_eq_ok ranClosing).trans (expectSymbol_eq_ok ranBrace)))
  obtain ⟨locals, readsLocals, readsOn⟩ := declares_locals ranLocals
  have declarations := (signature.declaring _).trans readsLocals
  obtain ⟨statements, readsBody, admissible, rfl⟩ := recognizes_statements budget _ _ _ ranBody
  have read := (declarations.passing (branchingsOf statements)).trans
    (readsBody.trans (expectSymbol_eq_ok ranEnd))
  -- the statements are looked up in the table that the declarations in front of them have made
  have sameTable : inside.table =
      (⟨kind, returns, name, parameters, locals, statements⟩ : Subroutine).table before.className
        before.table := by
    rw [declarations.table, State.declaring_table, signature.table, State.declaring_table,
      header.table, State.declaring_table]
    rfl
  rw [signature.table, header.table] at read
  rw [sameTable] at admissible
  refine ⟨⟨kind, returns, name, parameters, locals, statements⟩, rfl, readsOn, ?_, admissible, ?_⟩
  · simpa [Subroutine.tokens, Subroutine.table] using read
  · rw [sameTable, declarations.className, declarations.nextLabel, Subroutine.count_table]
    rfl

/-- A subroutine is recognized by its first word. -/
theorem recognizes_subroutine {budget : Nat} {before after : State} {result : Jack.Subroutine}
    (ran : (subroutine budget).run before = .ok (some result) after) :
    ∃ written : Subroutine, written.ReadsOn ∧
      Reads ((before.declaring (written.table before.className before.table)).passing
        (branchingsOf written.body)) written.tokens after ∧
      Admissible (written.table before.className before.table) (statementNames written.body)
        (statementStrings written.body) ∧
      result = written.resolved before.className before.table before.nextLabel := by
  obtain ⟨found, between, ranKind, ranBehind⟩ := bind_eq_ok ran
  rcases subroutineKind?_eq_ok ranKind with ⟨kind, reads, rfl⟩ | ⟨rfl, rfl⟩
  · obtain ⟨value, ranSubroutine, same⟩ := map_eq_ok ranBehind
    obtain rfl := Option.some.inj same
    obtain ⟨written, rfl, readsOn, readsBehind, admissible, rfl⟩ :=
      recognizes_subroutineOf ranSubroutine
    rw [reads.table, reads.className] at readsBehind admissible
    rw [reads.table, reads.className, reads.nextLabel]
    exact ⟨written, readsOn, ((reads.declaring _).passing _).trans readsBehind, admissible, rfl⟩
  · exact absurd (pure_eq_ok ranBehind).1 (Option.some_ne_none _)

/-- Where no subroutine follows, nothing is read. -/
theorem subroutine_absent {budget : Nat} {before after : State}
    (ran : (subroutine budget).run before = .ok none after) : after = before := by
  obtain ⟨found, between, ranKind, ranBehind⟩ := bind_eq_ok ran
  rcases subroutineKind?_eq_ok ranKind with ⟨kind, -, rfl⟩ | ⟨rfl, rfl⟩
  · exact (not_absent_of_map ranBehind).elim
  · exact (pure_eq_ok ranBehind).2

/-- Subroutines one after the other.  Each begins with the declarations of the class alone, whatever
the one before it has declared. -/
theorem recognizes_subroutines {budget : Nat} {before after : State} {results : List Jack.Subroutine}
    (ran : (many (subroutine budget) budget).run before = .ok results after) :
    ∃ written : List Subroutine, (∀ s ∈ written, s.ReadsOn) ∧
      Reads ((before.declaring after.table).passing (branchingsWithin written))
        (written.flatMap (·.tokens)) after ∧
      (∀ s ∈ written, Admissible (s.table before.className before.table) (statementNames s.body)
        (statementStrings s.body)) ∧
      results = resolvedSubroutines before.className before.table before.nextLabel written := by
  have repeated := repeated_of_many (fun _ _ => subroutine_absent) ran
  clear ran
  induction repeated with
  | nil state => exact ⟨[], List.forall_mem_nil _, Reads.refl state, List.forall_mem_nil _, rfl⟩
  | @cons before between after result others ranFirst repeated ih =>
      obtain ⟨first, readsOn, reads, admissible, rfl⟩ := recognizes_subroutine ranFirst
      obtain ⟨more, readsOnMore, readsMore, admissibleMore, rfl⟩ := ih
      have forgotten : between.table.clear = before.table.clear := by
        rw [reads.table]
        exact first.clear_table _ _
      have sameClass : between.className = before.className := reads.className
      refine ⟨first :: more, List.forall_mem_cons.mpr ⟨readsOn, readsOnMore⟩, ?_,
        List.forall_mem_cons.mpr ⟨admissible, ?_⟩, ?_⟩
      · have read := ((reads.declaring after.table).passing _).trans readsMore
        rw [State.declaring_passing, State.declaring_declaring, State.passing_passing] at read
        exact read
      · intro s member
        rw [← s.table_congr _ _ forgotten, ← sameClass]
        exact admissibleMore s member
      · rw [resolvedSubroutines, sameClass, resolvedSubroutines_congr _ forgotten, reads.nextLabel]
        rfl

/-! ## Classes -/

/-- A name is admissible in a subroutine if it is declared there or in the class; the reserved word
`this`, which a method declares, is no name. -/
theorem declared_of_contains {cls : Class} {subroutine : Subroutine} {name : String}
    (known : (subroutine.table cls.name cls.table).contains name = true)
    (noWord : name ≠ Keyword.this.text) :
    name ∈ subroutine.declaredNames ∨ name ∈ cls.declaredNames := by
  rw [Subroutine.contains_table, Class.clear_table, Class.contains_table] at known
  rcases known with inside | ofClass | ⟨-, isThis⟩
  · exact .inl inside
  · exact .inr ofClass
  · exact absurd isThis noWord

/-- **A class** is recognized, and nothing stands behind it.  Every subroutine is admissible in its own
symbol table. -/
theorem recognizes_class {budget : Nat} {before after : State} {result : Jack.Class}
    (undeclared : before.table = {}) (ran : (class_ budget).run before = .ok result after) :
    ∃ written : Class, before.cursor.rest.map (·.token) = written.tokens ∧ written.ReadsOn ∧
      (∀ s ∈ written.subroutines, Admissible (s.table written.name written.table)
        (statementNames s.body) (statementStrings s.body)) ∧
      result = written.resolved before.nextLabel ∧
      after.nextLabel = before.nextLabel + written.branchings := by
  obtain ⟨_, _, ranClass, ran⟩ := bind_eq_ok ran
  obtain ⟨name, named, ranName, ran⟩ := bind_eq_ok ran
  obtain ⟨_, _, ranChange, ran⟩ := bind_eq_ok ran
  obtain ⟨_, _, ranOpening, ran⟩ := bind_eq_ok ran
  obtain ⟨_, _, ranVariables, ran⟩ := bind_eq_ok ran
  obtain ⟨_, inside, got, ranRest⟩ := bind_eq_ok ran
  obtain ⟨subroutines, _, ranSubroutines, ranEnd⟩ := bind_eq_ok ranRest
  obtain ⟨_, closed, ranClosing, ranLast⟩ := bind_eq_ok ranEnd
  obtain ⟨_, _, gotLast, ranResult⟩ := bind_eq_ok ranLast
  obtain ⟨rfl, rfl⟩ := get_eq_ok got
  obtain ⟨rfl, rfl⟩ := get_eq_ok gotLast
  obtain rfl := modify_eq_ok ranChange
  dsimp only at ranResult
  split at ranResult
  · rename_i atEnd
    obtain ⟨rfl, rfl⟩ := pure_eq_ok ranResult
    have header := (expectKeyword_eq_ok ranClass).trans (identifier_eq_ok ranName)
    have opened := (header.naming name).trans (expectSymbol_eq_ok ranOpening)
    obtain ⟨shared, readsShared, -⟩ :=
      declares_many (declares_classVariables budget) budget _ _ _ ranVariables
    have declarations := (opened.declaring _).trans readsShared
    obtain ⟨written, readsOn, reads, admissible, rfl⟩ := recognizes_subroutines ranSubroutines
    have read := ((declarations.declaring _).passing _).trans
      (reads.trans (expectSymbol_eq_ok ranClosing))
    -- behind the variables of the class the table is that of the class
    have sameTable : inside.table = (⟨name, shared, written⟩ : Class).table := by
      rw [declarations.table, State.declaring_table, opened.table, State.naming_table, undeclared]
      rfl
    have sameClass : inside.className = name := declarations.className
    rw [sameTable, sameClass] at admissible
    refine ⟨⟨name, shared, written⟩, ?_, readsOn, admissible, ?_, read.nextLabel⟩
    · simpa [Class.tokens] using read.all atEnd
    · rw [sameTable, sameClass, declarations.nextLabel, Class.count_table]
      rfl
  · obtain ⟨_, _, stopped, -⟩ := bind_eq_ok ranResult
    exact (stop_ne_ok stopped).elim

end JackToolchain.Jack.Written

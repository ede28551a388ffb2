import JackToolchain.Jack.Class.Parser
import JackToolchain.Proofs.Jack.ExpressionCompilation
import JackToolchain.Proofs.Jack.Positions
import JackToolchain.Proofs.Jack.Scoping

/-!
# Reading classes

Every token list that spells a class of the grammar is read to its end.

## Main Statements

* `read_statement`, `read_statements` — in front of the tokens of a derivation, a parser returns the
  derivation with its names resolved and its branching statements numbered.
* `items_declare` — declarations one after the other are read and made.
* `read_subroutine`, `read_class` — subroutines and classes.

## Design Notes

These are the converses of the statements in `JackToolchain.Proofs.Jack.ClassRecognition`, in the same
terms: from `Reads before tokens after` it follows what a run from `before` returns, and that it ends in
`after` but for the numbers and declarations that it makes.  Here the budget matters: it has to stay
above the number of unread tokens.
-/

namespace JackToolchain.Jack

namespace Written

open JackToolchain.Jack.Parser

/-! ## Parts of statements -/

section Parts

variable {before after : State} {budget : Nat}

/-- An expression in front of a delimiter is read. -/
theorem read_value (expression : Expression) {c : Char}
    (reads : Reads before expression.tokens after) (closes : after.cursor.peek? = some (.symbol c))
    (delimits : c ∈ [')', ']', ';', ','])
    (admissible : Admissible before.table expression.names expression.strings)
    (enough : before.cursor.rest.length < budget) :
    (Parser.value budget).run before =
      .ok (expression.resolved before.table before.className) after := by
  obtain ⟨located, closing, rest, spelled, sameClosing, same, moved⟩ := reads.asReading_before closes
  rw [same] at enough
  rw [same, moved]
  exact read_expression expression spelled (delimited_cons sameClosing delimits rest).endsExpression admissible enough

/-- A condition is read. -/
theorem read_condition (condition : Expression) (reads : Reads before (conditionTokens condition) after)
    (admissible : Admissible before.table condition.names condition.strings)
    (enough : before.cursor.rest.length < budget) :
    (Parser.condition budget).run before =
      .ok (condition.resolved before.table before.className) after := by
  obtain ⟨opened, opening, reads⟩ := reads.split_cons
  obtain ⟨closed, inner, closing⟩ := reads.split
  rw [opening.length] at enough
  rw [← opening.table] at admissible
  have ran := read_value condition inner closing.peek? (by decide) admissible
    (Nat.lt_of_le_of_lt (Nat.le_add_left _ _) enough)
  rw [Parser.condition, run_bind_ok (run_expectSymbol_of_reads opening), run_bind_ok ran,
    run_bind_ok (run_expectSymbol_of_reads closing), opening.table, opening.className]
  rfl

/-- A call is read. -/
theorem read_call (callee : Callee) (arguments : List Expression)
    (reads : Reads before (Term.call callee arguments).tokens after)
    (admissible : Admissible before.table (argumentNames arguments) (argumentStrings arguments))
    (enough : before.cursor.rest.length < budget) :
    (Parser.call (value budget) budget).run before =
      .ok (resolvedCall before.table before.className callee arguments) after := by
  obtain ⟨named, naming, reads⟩ := reads.split
  obtain ⟨opened, opening, reads⟩ := reads.split_cons
  obtain ⟨closed, inner, closing⟩ := reads.split
  have ranCallee : Parser.callee.run before =
      .ok (callee.function before.table before.className, callee.receiver before.table) named := by
    obtain ⟨located, parenthesis, rest, spelled, sameOpening, same, moved⟩ := naming.asReading_before opening.peek?
    rw [same, moved]
    exact run_callee callee spelled sameOpening
  have ranArguments : (Parser.arguments (value budget) budget).run opened =
      .ok (resolvedArguments opened.table opened.className arguments) closed := by
    obtain ⟨located, parenthesis, rest, spelled, sameClosing, same, moved⟩ := inner.asReading_before closing.peek?
    have fewer : opened.cursor.rest.length < budget := by
      rw [naming.length, opening.length] at enough
      omega
    rw [same] at fewer
    rw [same, moved]
    refine read_arguments arguments spelled sameClosing ?_ fewer
    rwa [opening.table, naming.table]
  rw [Parser.call, run_bind_ok ranCallee]
  dsimp only
  rw [run_bind_ok (run_expectSymbol_of_reads opening), run_bind_ok ranArguments,
    run_bind_ok (run_expectSymbol_of_reads closing), opening.table, opening.className, naming.table,
    naming.className]
  rfl

/-- A variable that is declared has a cell. -/
theorem run_place_of_contains {name : String} (declared : before.table.contains name = true) :
    (place name).run before = .ok (placeOf before.table name) before := by
  rw [← State.reading_self before]
  exact run_place_placeOf declared

/-! ## Statements without bodies -/

/-- An assignment to a variable is read. -/
theorem read_assign (target : String) (expression : Expression)
    (reads : Reads before (Statement.assign target expression).tokens after)
    (admissible : Admissible before.table (Statement.assign target expression).names
      (Statement.assign target expression).strings)
    (enough : before.cursor.rest.length ≤ budget) :
    (assignment budget).run before =
      .ok (.assign (placeOf before.table target)
        (expression.resolved before.table before.className)) after := by
  obtain ⟨begun, word, reads⟩ := reads.split_cons
  obtain ⟨named, name, reads⟩ := reads.split_cons
  obtain ⟨assigned, equals, reads⟩ := reads.split_cons
  obtain ⟨computed, inner, ending⟩ := reads.split
  have front := word.trans (name.trans equals)
  have noBracket : named.cursor.peek? ≠ some (.symbol '[') := by
    rw [equals.peek?]
    decide
  have fewer : assigned.cursor.rest.length < budget := by
    rw [front.length, List.length_append, List.length_singleton] at enough
    omega
  have ranValue := read_value expression inner ending.peek? (by decide)
    (by rw [front.table]; exact admissible.mono (List.subset_cons_self _ _) (List.Subset.refl _)) fewer
  have known : computed.table.contains target = true := by
    rw [(front.trans inner).table]
    exact admissible.declared target List.mem_cons_self
  rw [assignment, run_bind_ok (run_expectKeyword_of_reads word),
    run_bind_ok (run_identifier_of_reads name), eatSymbol, run_bind_ok (run_eat_of_ne noBracket),
    if_neg Bool.false_ne_true, run_bind_ok (run_expectSymbol_of_reads equals), run_bind_ok ranValue,
    run_bind_ok (run_place_of_contains known), run_bind_ok (run_expectSymbol_of_reads ending),
    (front.trans inner).table, front.table, front.className]
  rfl

/-- An assignment to an element is read. -/
theorem read_assignElement (array : String) (index expression : Expression)
    (reads : Reads before (Statement.assignElement array index expression).tokens after)
    (admissible : Admissible before.table (Statement.assignElement array index expression).names
      (Statement.assignElement array index expression).strings)
    (enough : before.cursor.rest.length ≤ budget) :
    (assignment budget).run before =
      .ok (.assignElement (placeOf before.table array) (index.resolved before.table before.className)
        (expression.resolved before.table before.className)) after := by
  obtain ⟨begun, word, reads⟩ := reads.split_cons
  obtain ⟨named, name, reads⟩ := reads.split_cons
  obtain ⟨opened, bracket, reads⟩ := reads.split_cons
  obtain ⟨indexed, inner, reads⟩ := reads.split
  obtain ⟨closed, closing, reads⟩ := reads.split_cons
  obtain ⟨assigned, equals, reads⟩ := reads.split_cons
  obtain ⟨computed, outer, ending⟩ := reads.split
  have front := word.trans (name.trans bracket)
  have middle := front.trans (inner.trans (closing.trans equals))
  have known : opened.table.contains array = true := by
    rw [front.table]
    exact admissible.declared array List.mem_cons_self
  have parts : Admissible before.table (index.names ++ expression.names)
      (index.strings ++ expression.strings) :=
    admissible.mono (List.subset_cons_self _ _) (List.Subset.refl _)
  have fewer : opened.cursor.rest.length < budget := by
    rw [front.length, List.length_append, List.length_singleton] at enough
    omega
  have muchFewer : assigned.cursor.rest.length < budget := by
    rw [middle.length, List.length_append, List.length_append, List.length_singleton] at enough
    omega
  -- the element is looked up before its index, and the value is read behind both
  have ranIndex := read_value index inner closing.peek? (by decide)
    (by
      rw [front.table]
      exact parts.mono (List.subset_append_left _ _) (List.subset_append_left _ _)) fewer
  have ranValue := read_value expression outer ending.peek? (by decide)
    (by
      rw [middle.table]
      exact parts.mono (List.subset_append_right _ _) (List.subset_append_right _ _)) muchFewer
  rw [assignment, run_bind_ok (run_expectKeyword_of_reads word),
    run_bind_ok (run_identifier_of_reads name), eatSymbol, run_bind_ok (run_eat_of_reads bracket),
    if_pos rfl, run_bind_ok (run_place_of_contains known), run_bind_ok ranIndex,
    run_bind_ok (run_expectSymbol_of_reads closing), run_bind_ok (run_expectSymbol_of_reads equals),
    run_bind_ok ranValue, run_bind_ok (run_expectSymbol_of_reads ending), middle.table,
    middle.className, front.table, front.className]
  rfl

/-- A call as a statement is read. -/
theorem read_callStatement (callee : Callee) (arguments : List Expression)
    (reads : Reads before (Statement.run callee arguments).tokens after)
    (admissible : Admissible before.table (argumentNames arguments) (argumentStrings arguments))
    (enough : before.cursor.rest.length ≤ budget) :
    (callStatement budget).run before =
      .ok (.run (resolvedCall before.table before.className callee arguments)) after := by
  obtain ⟨begun, word, reads⟩ := reads.split_cons
  obtain ⟨called, call, ending⟩ := reads.split
  have fewer : begun.cursor.rest.length < budget := by
    rw [word.length, List.length_singleton] at enough
    omega
  have ranCall := read_call callee arguments call (by rwa [word.table]) fewer
  rw [callStatement, run_bind_ok (run_expectKeyword_of_reads word), run_bind_ok ranCall,
    run_bind_ok (run_expectSymbol_of_reads ending), word.table, word.className]
  rfl

/-- A return is read. -/
theorem read_leave (result : Option Expression)
    (reads : Reads before (Statement.leave result).tokens after)
    (admissible : Admissible before.table (Statement.leave result).names
      (Statement.leave result).strings)
    (enough : before.cursor.rest.length ≤ budget) :
    (leave budget).run before =
      .ok (.leave (result.map (·.resolved before.table before.className))) after := by
  obtain ⟨begun, word, reads⟩ := reads.split_cons
  obtain ⟨computed, inner, ending⟩ := reads.split
  rw [leave, run_bind_ok (run_expectKeyword_of_reads word), run_bind_ok (run_isNext_iff begun _)]
  cases result with
  | none =>
      obtain rfl := inner.eq_of_nil
      rw [ending.peek?, BEq.rfl, if_pos rfl, run_bind_ok (EStateM.run_pure _ _),
        run_bind_ok (run_expectSymbol_of_reads ending)]
      rfl
  | some expression =>
      obtain ⟨head, tail, spelled, opens⟩ := expression.tokens_cons
      have more : (begun.cursor.peek? == some (.symbol ';')) = false := by
        rw [resultTokens, spelled] at inner
        simpa [inner.peek?] using opens ';' (by decide)
      have fewer : begun.cursor.rest.length < budget := by
        rw [word.length, List.length_singleton] at enough
        omega
      have ranValue := read_value expression inner ending.peek? (by decide) (by rwa [word.table]) fewer
      rw [more]
      dsimp only
      rw [if_neg Bool.false_ne_true, run_bind_ok (run_map_ok some ranValue),
        run_bind_ok (run_expectSymbol_of_reads ending), word.table, word.className]
      rfl

end Parts

/-! ## Statements with bodies -/

/-- A statement begins with a word that is not the one in front of a second body. -/
theorem Statement.tokens_cons (statement : Statement) :
    ∃ word tail, statement.tokens = .keyword word :: tail ∧ word ≠ .else_ := by
  cases statement <;> exact ⟨_, _, rfl, by decide⟩

/-- Every statement has a token of its own. -/
theorem length_le_statementTokens (statements : List Statement) :
    statements.length ≤ (statementTokens statements).length := by
  induction statements with
  | nil => exact Nat.le_refl 0
  | cons statement rest ih =>
      obtain ⟨word, tail, spelled, -⟩ := statement.tokens_cons
      simp only [statementTokens, spelled, List.length_cons, List.length_append]
      omega

theorem length_resolvedStatements (table : Symbol.Table) (className : String) (first : Nat)
    (statements : List Statement) :
    (resolvedStatements table className first statements).length = statements.length := by
  induction statements generalizing first with
  | nil => rfl
  | cons statement rest ih => rw [resolvedStatements, List.length_cons, ih, List.length_cons]

/-- **Reading statements.**  In front of their tokens and a closing brace, the parser of a statement
returns one after the other. -/
def StatementsRead (statements : List Statement) (budget : Nat) : Prop :=
  ∀ ⦃before after : State⦄, Reads before (statementTokens statements) after →
    after.cursor.peek? = some (.symbol '}') →
    Admissible before.table (statementNames statements) (statementStrings statements) →
    before.cursor.rest.length < budget →
    Items (Parser.statement budget)
      (resolvedStatements before.table before.className before.nextLabel statements) before
      (after.passing (branchingsOf statements))

section Bodies

variable {before after : State} {budget : Nat} {condition : Expression} {body other : List Statement}

/-- Statements that are read one by one are read together. -/
theorem StatementsRead.run (statements : StatementsRead body budget)
    (reads : Reads before (statementTokens body) after)
    (closes : after.cursor.peek? = some (.symbol '}'))
    (admissible : Admissible before.table (statementNames body) (statementStrings body))
    (enough : before.cursor.rest.length < budget) :
    (many (Parser.statement budget) budget).run before =
      .ok (resolvedStatements before.table before.className before.nextLabel body)
        (after.passing (branchingsOf body)) := by
  refine run_many (statements reads closes admissible enough) ?_
  have few := length_le_statementTokens body
  rw [length_resolvedStatements]
  rw [reads.length] at enough
  omega

/-- Statements in braces are read. -/
theorem read_block (statements : StatementsRead body budget)
    (reads : Reads before (braced (statementTokens body)) after)
    (admissible : Admissible before.table (statementNames body) (statementStrings body))
    (enough : before.cursor.rest.length < budget) :
    (block (many (Parser.statement budget) budget)).run before =
      .ok (resolvedStatements before.table before.className before.nextLabel body)
        (after.passing (branchingsOf body)) := by
  obtain ⟨opened, opening, reads⟩ := reads.split_cons
  obtain ⟨closed, inner, closing⟩ := reads.split
  have ran := statements.run inner closing.peek? (by rwa [opening.table])
    (by rw [opening.length] at enough; omega)
  rw [block, run_bind_ok (run_expectSymbol_of_reads opening), run_bind_ok ran,
    run_bind_ok (run_expectSymbol_of_reads (closing.passing _)), opening.table, opening.className,
    opening.nextLabel]
  rfl

theorem run_freshLabel (before : State) :
    freshLabel.run before = .ok before.nextLabel (before.passing 1) := rfl

/-- The condition of a branch or loop is read behind its first word, when its number is taken. -/
theorem read_test {begun tested : State} {k : Keyword} (word : Reads before [.keyword k] begun)
    (test : Reads begun (conditionTokens condition) tested)
    (admissible : Admissible before.table condition.names condition.strings)
    (enough : before.cursor.rest.length ≤ budget) :
    (Parser.condition budget).run (begun.passing 1) =
      .ok (condition.resolved before.table before.className) (tested.passing 1) := by
  have fewer : (begun.passing 1).cursor.rest.length < budget := by
    rw [word.length, List.length_singleton] at enough
    rw [State.passing_cursor]
    omega
  have ran := read_condition condition (test.passing 1)
    (by rwa [State.passing_table, word.table]) fewer
  rwa [State.passing_table, word.table, State.passing_className, word.className] at ran

/-- A branch without a second body is read. -/
theorem read_branch (statements : StatementsRead body budget)
    (reads : Reads before (Statement.branch condition body).tokens after)
    (follows : after.cursor.peek? ≠ some (.keyword .else_))
    (admissible : Admissible before.table (Statement.branch condition body).names
      (Statement.branch condition body).strings)
    (enough : before.cursor.rest.length ≤ budget) :
    (branch (many (Parser.statement budget) budget) budget).run before =
      .ok ((Statement.branch condition body).resolved before.table before.className before.nextLabel)
        (after.passing (Statement.branch condition body).branchings) := by
  obtain ⟨begun, word, reads⟩ := reads.split_cons
  obtain ⟨tested, test, inner⟩ := reads.split
  have front := word.trans test
  have ranCondition := read_test word test
    (admissible.mono (List.subset_append_left _ _) (List.subset_append_left _ _)) enough
  have ranBody := read_block statements (inner.passing 1)
    (by
      rw [State.passing_table, front.table]
      exact admissible.mono (List.subset_append_right _ _) (List.subset_append_right _ _))
    (by
      rw [front.length, List.length_append, List.length_singleton] at enough
      rw [State.passing_cursor]
      omega)
  have noElse : (eat (.keyword .else_)).run ((after.passing 1).passing (branchingsOf body)) =
      .ok false ((after.passing 1).passing (branchingsOf body)) :=
    run_eat_of_ne follows
  rw [branch, run_bind_ok (run_freshLabel before),
    run_bind_ok (run_expectKeyword_of_reads (word.passing 1)), run_bind_ok ranCondition,
    run_bind_ok ranBody, eatKeyword, run_bind_ok noElse, if_neg Bool.false_ne_true,
    run_bind_ok (EStateM.run_pure _ _), State.passing_passing, State.passing_table, front.table,
    State.passing_className, front.className, State.passing_nextLabel, front.nextLabel]
  rfl

/-- A branch with a second body is read. -/
theorem read_choice (first : StatementsRead body budget) (second : StatementsRead other budget)
    (reads : Reads before (Statement.choice condition body other).tokens after)
    (admissible : Admissible before.table (Statement.choice condition body other).names
      (Statement.choice condition body other).strings)
    (enough : before.cursor.rest.length ≤ budget) :
    (branch (many (Parser.statement budget) budget) budget).run before =
      .ok ((Statement.choice condition body other).resolved before.table before.className
        before.nextLabel) (after.passing (Statement.choice condition body other).branchings) := by
  obtain ⟨begun, word, reads⟩ := reads.split_cons
  obtain ⟨tested, test, reads⟩ := reads.split
  obtain ⟨done, innerTrue, reads⟩ := reads.split
  obtain ⟨turned, otherwise, innerFalse⟩ := reads.split_cons
  have front := word.trans test
  have middle := front.trans (innerTrue.trans otherwise)
  have bodies : Admissible before.table (statementNames body ++ statementNames other)
      (statementStrings body ++ statementStrings other) :=
    admissible.mono (List.subset_append_right _ _) (List.subset_append_right _ _)
  have ranCondition := read_test word test
    (admissible.mono (List.subset_append_left _ _) (List.subset_append_left _ _)) enough
  have ranTrue := read_block first (innerTrue.passing 1)
    (by
      rw [State.passing_table, front.table]
      exact bodies.mono (List.subset_append_left _ _) (List.subset_append_left _ _))
    (by
      rw [front.length, List.length_append, List.length_singleton] at enough
      rw [State.passing_cursor]
      omega)
  -- the statements of the first body have taken their numbers
  have ranFalse := read_block second (innerFalse.passing (1 + branchingsOf body))
    (by
      rw [State.passing_table, middle.table]
      exact bodies.mono (List.subset_append_right _ _) (List.subset_append_right _ _))
    (by
      rw [middle.length, List.length_append, List.length_append, List.length_singleton] at enough
      rw [State.passing_cursor]
      omega)
  rw [branch, run_bind_ok (run_freshLabel before),
    run_bind_ok (run_expectKeyword_of_reads (word.passing 1)), run_bind_ok ranCondition,
    run_bind_ok ranTrue, State.passing_passing, eatKeyword,
    run_bind_ok (run_eat_of_reads (otherwise.passing _)), if_pos rfl, run_bind_ok ranFalse,
    State.passing_passing, State.passing_table, State.passing_table, front.table, middle.table,
    State.passing_className, State.passing_className, front.className, middle.className,
    State.passing_nextLabel, State.passing_nextLabel, front.nextLabel, middle.nextLabel]
  show _ = EStateM.Result.ok (Jack.Statement.branch _ _ _ _) (after.passing (1 + (_ + _)))
  rw [← Nat.add_assoc, ← Nat.add_assoc]
  rfl

/-- A loop is read. -/
theorem read_loop (statements : StatementsRead body budget)
    (reads : Reads before (Statement.loop condition body).tokens after)
    (admissible : Admissible before.table (Statement.loop condition body).names
      (Statement.loop condition body).strings)
    (enough : before.cursor.rest.length ≤ budget) :
    (loop (many (Parser.statement budget) budget) budget).run before =
      .ok ((Statement.loop condition body).resolved before.table before.className before.nextLabel)
        (after.passing (Statement.loop condition body).branchings) := by
  obtain ⟨begun, word, reads⟩ := reads.split_cons
  obtain ⟨tested, test, inner⟩ := reads.split
  have front := word.trans test
  have ranCondition := read_test word test
    (admissible.mono (List.subset_append_left _ _) (List.subset_append_left _ _)) enough
  have ranBody := read_block statements (inner.passing 1)
    (by
      rw [State.passing_table, front.table]
      exact admissible.mono (List.subset_append_right _ _) (List.subset_append_right _ _))
    (by
      rw [front.length, List.length_append, List.length_singleton] at enough
      rw [State.passing_cursor]
      omega)
  rw [loop, run_bind_ok (run_freshLabel before),
    run_bind_ok (run_expectKeyword_of_reads (word.passing 1)), run_bind_ok ranCondition,
    run_bind_ok ranBody, State.passing_passing, State.passing_table, front.table,
    State.passing_className, front.className, State.passing_nextLabel, front.nextLabel]
  rfl

end Bodies

/-! ## Statements -/

/-- The parser that a first word calls for. -/
def parserOf (budget : Nat) : Keyword → Parser (Option Jack.Statement)
  | .let_ => some <$> assignment budget
  | .if_ => some <$> branch (many (Parser.statement budget) budget) budget
  | .while_ => some <$> loop (many (Parser.statement budget) budget) budget
  | .do_ => some <$> callStatement budget
  | .return_ => some <$> leave budget
  | _ => return none

/-- A statement is recognised by its first word. -/
theorem run_statement_of_word {before : State} {budget : Nat} {word : Keyword}
    (next : before.cursor.peek? = some (.keyword word)) :
    (Parser.statement (budget + 1)).run before = (parserOf budget word).run before := by
  have looked : peek?.run before = .ok (some (.keyword word)) before := by
    rw [← next]
    rfl
  rw [Parser.statement, run_bind_ok looked]
  cases word <;> rfl

/-- Where a closing brace follows, no statement does. -/
theorem run_statement_none {before : State} {budget : Nat}
    (closes : before.cursor.peek? = some (.symbol '}')) :
    (Parser.statement (budget + 1)).run before = .ok none before := by
  have looked : peek?.run before = .ok (some (.symbol '}')) before := by
    rw [← closes]
    rfl
  rw [Parser.statement, run_bind_ok looked]
  rfl

/-- Behind a statement, another one follows or a closing brace, but no second body. -/
theorem no_else_of_reads {statements : List Statement} {before after : State}
    (reads : Reads before (statementTokens statements) after)
    (closes : after.cursor.peek? = some (.symbol '}')) :
    before.cursor.peek? ≠ some (.keyword .else_) := by
  cases statements with
  | nil =>
      rw [← reads.eq_of_nil, closes]
      decide
  | cons statement rest =>
      obtain ⟨word, tail, spelled, other⟩ := statement.tokens_cons
      rw [statementTokens, spelled] at reads
      rw [reads.peek?]
      rintro ⟨⟩
      exact other rfl

mutual

/-- **A statement** is read. -/
theorem read_statement (statement : Statement) {before after : State} {budget : Nat}
    (reads : Reads before statement.tokens after)
    (follows : after.cursor.peek? ≠ some (.keyword .else_))
    (admissible : Admissible before.table statement.names statement.strings)
    (enough : before.cursor.rest.length < budget) :
    (Parser.statement budget).run before =
      .ok (some (statement.resolved before.table before.className before.nextLabel))
        (after.passing statement.branchings) := by
  obtain ⟨budget, rfl⟩ := Nat.exists_eq_succ_of_ne_zero (Nat.ne_zero_of_lt enough)
  have few := Nat.le_of_lt_succ enough
  cases statement with
  | assign target value =>
      rw [run_statement_of_word reads.peek?]
      exact run_map_ok some (read_assign target value reads admissible few)
  | assignElement array index value =>
      rw [run_statement_of_word reads.peek?]
      exact run_map_ok some (read_assignElement array index value reads admissible few)
  | branch condition body =>
      rw [run_statement_of_word reads.peek?]
      exact run_map_ok some
        (read_branch (read_statements body budget) reads follows admissible few)
  | choice condition whenTrue whenFalse =>
      rw [run_statement_of_word reads.peek?]
      exact run_map_ok some (read_choice (read_statements whenTrue budget)
        (read_statements whenFalse budget) reads admissible few)
  | loop condition body =>
      rw [run_statement_of_word reads.peek?]
      exact run_map_ok some (read_loop (read_statements body budget) reads admissible few)
  | run callee arguments =>
      rw [run_statement_of_word reads.peek?]
      exact run_map_ok some (read_callStatement callee arguments reads admissible few)
  | leave value =>
      rw [run_statement_of_word reads.peek?]
      exact run_map_ok some (read_leave value reads admissible few)

/-- **Statements** are read one by one. -/
theorem read_statements (statements : List Statement) (budget : Nat) :
    StatementsRead statements budget := by
  intro before after reads closes admissible enough
  cases statements with
  | nil =>
      obtain rfl := reads.eq_of_nil
      obtain ⟨budget, rfl⟩ := Nat.exists_eq_succ_of_ne_zero (Nat.ne_zero_of_lt enough)
      exact .none (run_statement_none closes)
  | cons statement rest =>
      obtain ⟨between, first, others⟩ := reads.split
      have ranFirst := read_statement statement first (no_else_of_reads others closes)
        (admissible.mono (List.subset_append_left _ _) (List.subset_append_left _ _)) enough
      have ranOthers := read_statements rest budget (others.passing statement.branchings) closes
        (by
          rw [State.passing_table, first.table]
          exact admissible.mono (List.subset_append_right _ _) (List.subset_append_right _ _))
        (by
          rw [first.length] at enough
          rw [State.passing_cursor]
          omega)
      rw [State.passing_table, first.table, State.passing_className, first.className,
        State.passing_nextLabel, first.nextLabel, State.passing_passing] at ranOthers
      exact .some ranFirst ranOthers

end

/-! ## Declarations -/

section Declarations

variable {ω : Type} {before after : State} {budget : Nat} {tokens : ω → List Token}
  {declare : Symbol.Table → ω → Symbol.Table}

/-- **Declarations** one after the other are read and made, up to where none follows. -/
theorem items_declare {item? : Parser (Option Unit)} (written : List ω)
    (reads : Reads before (written.flatMap tokens) after)
    (present : ∀ declaration ∈ written, ∀ {start stop : State}, Reads start (tokens declaration) stop →
      start.cursor.rest.length ≤ before.cursor.rest.length →
      item?.run start = .ok (some ()) (stop.declaring (declare start.table declaration)))
    (absent : ∀ table, item?.run (after.declaring table) = .ok none (after.declaring table)) :
    Items item? (written.map fun _ => ()) before
      (after.declaring (written.foldl declare before.table)) := by
  induction written generalizing before after with
  | nil =>
      obtain rfl := reads.eq_of_nil
      exact .none (absent _)
  | cons declaration rest ih =>
      obtain ⟨between, first, others⟩ := reads.split
      refine .some (present declaration List.mem_cons_self first (Nat.le_refl _)) ?_
      have more := ih (others.declaring (declare before.table declaration))
        fun declaration member start stop reads fewer =>
          present declaration (List.mem_cons_of_mem _ member) reads (by
            rw [first.length]
            exact Nat.le_trans fewer (Nat.le_add_left _ _))
      exact more absent

/-- Every declaration has a token of its own. -/
theorem length_le_flatMap (nonempty : ∀ declaration, tokens declaration ≠ []) (written : List ω) :
    written.length ≤ (written.flatMap tokens).length := by
  induction written with
  | nil => exact Nat.le_refl 0
  | cons declaration rest ih =>
      have some := List.length_pos_iff.mpr (nonempty declaration)
      rw [List.flatMap_cons, List.length_append, List.length_cons]
      omega

/-- Declarations are read and made together, however many there are. -/
theorem run_many_declare {item? : Parser (Option Unit)} (written : List ω)
    (reads : Reads before (written.flatMap tokens) after)
    (nonempty : ∀ declaration, tokens declaration ≠ [])
    (present : ∀ declaration, ∀ {start stop : State}, Reads start (tokens declaration) stop →
      start.cursor.rest.length < budget →
      item?.run start = .ok (some ()) (stop.declaring (declare start.table declaration)))
    (absent : ∀ table, item?.run (after.declaring table) = .ok none (after.declaring table))
    (enough : before.cursor.rest.length < budget) :
    (many item? budget).run before =
      .ok (written.map fun _ => ()) (after.declaring (written.foldl declare before.table)) := by
  have items : Items item? (written.map fun _ => ()) before
      (after.declaring (written.foldl declare before.table)) :=
    items_declare written reads
      (fun declaration _ _ _ reads fewer => present declaration reads (fewer.trans_lt enough)) absent
  refine run_many items ?_
  have few : written.length ≤ (written.flatMap tokens).length := length_le_flatMap nonempty written
  rw [List.length_map]
  rw [reads.length] at enough
  omega

/-- Declarations with commas between them are read and made. -/
theorem run_commaSeparated_declare {item : Parser Unit} {c : Char} (first : ω) (more : List ω)
    (reads : Reads before
      (tokens first ++ more.flatMap fun declaration => .symbol ',' :: tokens declaration) after)
    (closes : after.cursor.peek? = some (.symbol c)) (noComma : c ≠ ',')
    (present : ∀ declaration, ∀ {start stop : State}, Reads start (tokens declaration) stop →
      item.run start = .ok () (stop.declaring (declare start.table declaration)))
    (enough : before.cursor.rest.length < budget) :
    (commaSeparated item budget).run before =
      .ok (() :: more.map fun _ => ())
        (after.declaring ((first :: more).foldl declare before.table)) := by
  obtain ⟨between, one, others⟩ := reads.split
  have ranOthers : Items (further item) (more.map fun _ => ())
      (between.declaring (declare before.table first))
      (after.declaring (more.foldl declare (declare before.table first))) := by
    rw [← State.declaring_declaring after _ (declare before.table first)]
    refine items_declare more (others.declaring (declare before.table first)) ?_ ?_
    · intro declaration member start stop reads fewer
      obtain ⟨behind, comma, reads⟩ := reads.split_cons
      rw [further, eatSymbol, run_bind_ok (run_eat_of_reads comma), if_pos rfl, ← comma.table]
      exact run_map_ok some (present declaration reads)
    · intro table
      rw [State.declaring_declaring]
      have other : (after.declaring table).cursor.peek? ≠ some (.symbol ',') := by
        rw [State.declaring_cursor, closes]
        rintro ⟨⟩
        exact noComma rfl
      rw [further, eatSymbol, run_bind_ok (run_eat_of_ne other)]
      rfl
  refine run_commaSeparated (present first one) ranOthers ?_
  have few : more.length ≤ (more.flatMap fun w => .symbol ',' :: tokens w).length :=
    length_le_flatMap (fun _ => List.cons_ne_nil _ _) more
  rw [List.length_map]
  rw [one.length, others.length] at enough
  omega

/-- A type is spelled by its token. -/
theorem typeOf?_token (allowVoid : Bool) (type : TypeName) :
    typeOf? allowVoid type.token = some type.text := by
  cases type <;> rfl

/-- So is what a subroutine returns. -/
theorem typeOf?_returnToken (returns : Option TypeName) :
    typeOf? true (returnToken returns) = some (returnText returns) := by
  cases returns with
  | none => rfl
  | some type => exact typeOf?_token true type

/-- Variables of one type are declared and counted. -/
theorem read_declarations (kind : Symbol.Kind) (group : Variables)
    (reads : Reads before group.tokens after) (enough : before.cursor.rest.length ≤ budget) :
    (declarations kind budget).run before =
      .ok (counted group.names.length) (after.declaring (group.declare kind before.table)) := by
  obtain ⟨typed, type, reads⟩ := reads.split_cons
  have parted : Reads typed ((Token.identifier group.first ::
      group.more.flatMap fun name => [.symbol ',', .identifier name]) ++ [Token.symbol ';']) after :=
    reads
  obtain ⟨named, namesRead, ending⟩ := parted.split
  have ranNames : (names group.type.text kind budget).run typed =
      .ok (counted group.names.length) (named.declaring (group.declare kind typed.table)) := by
    have fewer : typed.cursor.rest.length < budget := by
      rw [type.length, List.length_singleton] at enough
      omega
    let define (table : Symbol.Table) (name : String) := table.define name group.type.text kind
    let item : Parser Unit := do Parser.define (← identifier) group.type.text kind
    have isName (name : String) {start stop : State} (reads : Reads start [.identifier name] stop) :
        item.run start = .ok () (stop.declaring (define start.table name)) := by
      rw [run_bind_ok (run_identifier_of_reads reads), ← reads.table]
      rfl
    have ran := run_commaSeparated_declare group.first group.more namesRead ending.peek?
      (by decide) isName fewer
    rw [names, run_bind_ok ran, List.length_cons, List.length_map]
    rfl
  rw [declarations, run_bind_ok (run_typeName_of_reads (typeOf?_token false group.type) type),
    run_bind_ok ranNames, type.table, run_bind_ok (run_expectSymbol_of_reads (ending.declaring _))]
  rfl

/-- The kind of class variables is read off their first word. -/
theorem run_classVariableKind? (areFields : Bool)
    (reads : Reads before [.keyword (if areFields then .field else .static_)] after) :
    classVariableKind?.run before = .ok (some (if areFields then .field else .static_)) after := by
  cases areFields with
  | false =>
      have word : Reads before [.keyword .static_] after := reads
      rw [classVariableKind?, eatKeyword, run_bind_ok (run_eat_of_reads word)]
      rfl
  | true =>
      have word : Reads before [.keyword .field] after := reads
      have noStatic : before.cursor.peek? ≠ some (.keyword .static_) := by
        rw [reads.peek?]
        decide
      rw [classVariableKind?, eatKeyword, run_bind_ok (run_eat_of_ne noStatic),
        if_neg Bool.false_ne_true, eatKeyword,
        run_bind_ok (run_eat_of_reads word)]
      rfl

/-- Statics and fields are declared. -/
theorem read_classVariables (declaration : ClassVariables)
    (reads : Reads before declaration.tokens after) (enough : before.cursor.rest.length ≤ budget) :
    (classVariables budget).run before =
      .ok (some ()) (after.declaring (ClassVariables.declare before.table declaration)) := by
  obtain ⟨begun, word, reads⟩ := reads.split_cons
  have fewer : begun.cursor.rest.length ≤ budget := by
    rw [word.length] at enough
    omega
  have ran := read_declarations declaration.kind declaration.group reads fewer
  rw [classVariables, run_bind_ok (run_classVariableKind? declaration.areFields word), ← word.table]
  exact run_bind_ok ran

/-- Local variables are declared and counted. -/
theorem read_localVariables (declaration : Variables)
    (reads : Reads before (.keyword .var :: declaration.tokens) after)
    (enough : before.cursor.rest.length ≤ budget) :
    (localVariables budget).run before =
      .ok (counted declaration.names.length)
        (after.declaring (declaration.declare .var before.table)) := by
  obtain ⟨begun, word, reads⟩ := reads.split_cons
  have fewer : begun.cursor.rest.length ≤ budget := by
    rw [word.length] at enough
    omega
  have ran := read_declarations .var declaration reads fewer
  rw [localVariables, eatKeyword, run_bind_ok (run_eat_of_reads word), if_pos rfl, ← word.table]
  exact ran

/-- Parameters are declared. -/
theorem read_parameters (parameters : List Parameter)
    (reads : Reads before (parameterTokens parameters) after)
    (closes : after.cursor.peek? = some (.symbol ')'))
    (enough : before.cursor.rest.length < budget) :
    (Parser.parameters budget).run before =
      .ok () (after.declaring (parameters.foldl Parameter.declare before.table)) := by
  rw [Parser.parameters, run_bind_ok (run_isNext_iff before _)]
  cases parameters with
  | nil =>
      obtain rfl := reads.eq_of_nil
      rw [closes]
      rfl
  | cons first more =>
      have isParameter (parameter : Parameter) {start stop : State}
          (reads : Reads start parameter.tokens stop) :
          Parser.parameter.run start = .ok () (stop.declaring (Parameter.declare start.table parameter)) := by
        obtain ⟨typed, type, name⟩ := reads.split_cons
        rw [Parser.parameter, run_bind_ok (run_typeName_of_reads (typeOf?_token false _) type),
          run_bind_ok (run_identifier_of_reads name), ← (type.trans name).table]
        rfl
      have other : (before.cursor.peek? == some (.symbol ')')) = false := by
        obtain ⟨typed, type, -⟩ := reads.split_cons
        rw [type.peek?]
        cases first.type <;> rfl
      have ran := run_commaSeparated_declare first more reads closes (by decide)
        (fun parameter _ _ reads => isParameter parameter reads) enough
      rw [other]
      exact run_bind_ok ran

end Declarations

/-! ## Subroutines -/

section Subroutines

variable {before after : State} {budget : Nat}

/-- The kind of a subroutine is read off its first word. -/
theorem run_subroutineKind? (kind : SubroutineKind)
    (reads : Reads before [.keyword (kindKeyword kind)] after) :
    subroutineKind?.run before = .ok (some kind) after := by
  have noOther {k : Keyword} (other : kindKeyword kind ≠ k) :
      before.cursor.peek? ≠ some (.keyword k) := by
    rw [reads.peek?]
    rintro ⟨⟩
    exact other rfl
  cases kind with
  | constructor_ =>
      have word : Reads before [.keyword .constructor_] after := reads
      rw [subroutineKind?, eatKeyword, run_bind_ok (run_eat_of_reads word)]
      rfl
  | function =>
      have word : Reads before [.keyword .function] after := reads
      rw [subroutineKind?, eatKeyword, run_bind_ok (run_eat_of_ne (noOther (by decide))),
        if_neg Bool.false_ne_true, eatKeyword,
        run_bind_ok (run_eat_of_reads word)]
      rfl
  | method =>
      have word : Reads before [.keyword .method] after := reads
      rw [subroutineKind?, eatKeyword, run_bind_ok (run_eat_of_ne (noOther (by decide))),
        if_neg Bool.false_ne_true, eatKeyword, run_bind_ok (run_eat_of_ne (noOther (by decide))),
        if_neg Bool.false_ne_true, eatKeyword,
        run_bind_ok (run_eat_of_reads word)]
      rfl

theorem run_beginSubroutine (kind : SubroutineKind) (before : State) :
    (beginSubroutine kind).run before =
      .ok () (before.declaring (Subroutine.outset kind before.className before.table)) := by
  cases kind <;> rfl

/-- Where a token follows that begins no declaration, no local variables are declared. -/
theorem run_localVariables_none (other : before.cursor.peek? ≠ some (.keyword .var)) :
    (localVariables budget).run before = .ok 0 before := by
  rw [localVariables, eatKeyword, run_bind_ok (run_eat_of_ne other)]
  rfl

/-- Statements in front of a closing brace do not begin with a declaration. -/
theorem no_var_of_reads {statements : List Statement}
    (reads : Reads before (statementTokens statements) after)
    (closes : after.cursor.peek? = some (.symbol '}')) :
    before.cursor.peek? ≠ some (.keyword .var) := by
  cases statements with
  | nil =>
      rw [← reads.eq_of_nil, closes]
      decide
  | cons statement rest =>
      cases statement <;>
      · rw [statementTokens, Statement.tokens] at reads
        rw [Reads.peek? reads]
        decide

/-- Where no declaration follows, none is looked for behind it. -/
theorem run_locals_none (other : before.cursor.peek? ≠ some (.keyword .var)) {lines : Nat} :
    (Parser.locals budget lines).run before = .ok () before := by
  cases lines with
  | zero => rfl
  | succ lines =>
      rw [Parser.locals, run_bind_ok (run_localVariables_none other)]
      rfl

/-- The declarations of local variables are read, if none in front of another is counted as one of no
names.  Behind such a one another declaration may follow, which is not looked for. -/
theorem read_locals (locals : List Variables)
    (readsOn : ∀ group ∈ locals.dropLast, counted group.names.length ≠ 0)
    (reads : Reads before (locals.flatMap fun group => .keyword .var :: group.tokens) after)
    (follows : (∀ last ∈ locals.getLast?, counted last.names.length ≠ 0) →
      after.cursor.peek? ≠ some (.keyword .var))
    (enough : before.cursor.rest.length < budget) {lines : Nat} (few : locals.length ≤ lines) :
    (Parser.locals budget lines).run before =
      .ok () (after.declaring (locals.foldl (Variables.declare .var) before.table)) := by
  induction locals generalizing before after lines with
  | nil =>
      obtain rfl := reads.eq_of_nil
      exact run_locals_none (follows nofun)
  | cons first rest ih =>
      obtain ⟨lines, rfl⟩ := Nat.exists_eq_succ_of_ne_zero (Nat.ne_zero_of_lt few)
      obtain ⟨between, one, others⟩ := reads.split
      have ranFirst := read_localVariables first one enough.le
      have fewer : between.cursor.rest.length < budget := by
        rw [one.length] at enough
        omega
      rw [Parser.locals, run_bind_ok ranFirst]
      cases rest with
      | nil =>
          -- behind the last declaration it does not matter whether another one is looked for
          obtain rfl := others.eq_of_nil
          split
          · rename_i goesOn
            have noMore : (after.declaring (first.declare .var before.table)).cursor.peek? ≠
                some (.keyword .var) := by
              refine follows ?_
              rintro _ ⟨⟩
              exact Nat.ne_of_gt goesOn
            exact run_locals_none noMore
          · rfl
      | cons second rest =>
          obtain ⟨goesOn, readsOn⟩ := List.forall_mem_cons.mp readsOn
          rw [if_pos (Nat.pos_of_ne_zero goesOn)]
          exact ih readsOn (others.declaring (first.declare .var before.table)) follows fewer
            (Nat.le_of_succ_le_succ few)

/-- **What stands in front of the statements** of a subroutine is read, and its declarations are made.  What
is left to do is to read the statements. -/
theorem run_subroutine_of_heading (written : Subroutine) (reads : Reads before written.heading after)
    (readsOn : written.ReadsOn)
    (follows : (∀ last ∈ written.locals.getLast?, counted last.names.length ≠ 0) →
      after.cursor.peek? ≠ some (.keyword .var))
    (enough : before.cursor.rest.length < budget) :
    (Parser.subroutine budget).run before = (some <$> do
      let body ← statements budget
      expectSymbol '}'
      return ⟨written.kind, written.name, returnText written.returns = Keyword.void.text,
        counted written.localCount, body⟩ : Parser (Option Jack.Subroutine)).run
        (after.declaring (written.table before.className before.table)) := by
  obtain ⟨begun, word, reads⟩ := reads.split_cons
  obtain ⟨typed, type, reads⟩ := reads.split_cons
  obtain ⟨named, name, reads⟩ := reads.split_cons
  obtain ⟨opened, opening, reads⟩ := reads.split_cons
  obtain ⟨listed, parameters, reads⟩ := reads.split
  obtain ⟨closed, closing, reads⟩ := reads.split_cons
  obtain ⟨entered, brace, locals⟩ := reads.split_cons
  have header := word.trans (type.trans (name.trans opening))
  have signature := header.trans (parameters.trans (closing.trans brace))
  -- the symbol tables behind the word that begins the subroutine, its parameters and its locals
  let outset := Subroutine.outset written.kind before.className before.table
  let bound := written.parameters.foldl Parameter.declare outset
  let full := written.table before.className before.table
  have ranParameters : (Parser.parameters budget).run (opened.declaring outset) =
      .ok () (listed.declaring bound) := by
    have fewer : opened.cursor.rest.length < budget := by
      rw [header.length] at enough
      omega
    have ran := read_parameters written.parameters (parameters.declaring outset) closing.peek? fewer
    rwa [State.declaring_declaring] at ran
  have ranLocals : (Parser.locals budget budget).run (entered.declaring bound) =
      .ok () (after.declaring full) := by
    have fewer : entered.cursor.rest.length < budget := by
      rw [signature.length] at enough
      omega
    have few : written.locals.length ≤ budget := by
      have spent := length_le_flatMap (fun group : Variables => List.cons_ne_nil (Token.keyword .var) group.tokens)
        written.locals
      rw [locals.length] at fewer
      omega
    have ran := read_locals written.locals readsOn (locals.declaring bound) follows fewer few
    rwa [State.declaring_declaring] at ran
  have count : full.count .var = counted written.localCount := written.count_table _ _
  have behind : (subroutineOf written.kind budget).run begun = (do
      let body ← statements budget
      expectSymbol '}'
      return ⟨written.kind, written.name, returnText written.returns = Keyword.void.text,
        full.count .var, body⟩ : Parser Jack.Subroutine).run (after.declaring full) := by
    rw [subroutineOf, run_bind_ok (run_beginSubroutine _ _), word.table, word.className,
      run_bind_ok (run_typeName_of_reads (typeOf?_returnToken written.returns) (type.declaring outset)),
      run_bind_ok (run_identifier_of_reads (name.declaring outset)),
      run_bind_ok (run_expectSymbol_of_reads (opening.declaring outset)), run_bind_ok ranParameters,
      run_bind_ok (run_expectSymbol_of_reads (closing.declaring bound)),
      run_bind_ok (run_expectSymbol_of_reads (brace.declaring bound)), run_bind_ok ranLocals]
    rfl
  rw [Parser.subroutine, run_bind_ok (run_subroutineKind? written.kind word), ← count]
  dsimp only
  rw [map_eq_pure_bind, map_eq_pure_bind, EStateM.run_bind, behind, ← EStateM.run_bind]

/-- **A subroutine** is read. -/
theorem read_subroutine (written : Subroutine) (reads : Reads before written.tokens after)
    (readsOn : written.ReadsOn)
    (admissible : Admissible (written.table before.className before.table)
      (statementNames written.body) (statementStrings written.body))
    (enough : before.cursor.rest.length < budget) :
    (Parser.subroutine budget).run before =
      .ok (some (written.resolved before.className before.table before.nextLabel))
        ((after.declaring (written.table before.className before.table)).passing
          (branchingsOf written.body)) := by
  rw [written.tokens_eq] at reads
  obtain ⟨declared, heading, reads⟩ := reads.split
  obtain ⟨done, body, ending⟩ := reads.split
  let full := written.table before.className before.table
  have noVar : declared.cursor.peek? ≠ some (.keyword .var) := no_var_of_reads body ending.peek?
  rw [run_subroutine_of_heading written heading readsOn (fun _ => noVar) enough]
  have ranBody : (statements budget).run (declared.declaring full) =
      .ok (resolvedStatements full before.className before.nextLabel written.body)
        ((done.declaring full).passing (branchingsOf written.body)) := by
    have fewer : declared.cursor.rest.length < budget := by
      rw [heading.length] at enough
      omega
    have ran := (read_statements written.body budget).run (body.declaring full) ending.peek?
      admissible fewer
    rwa [State.declaring_className, State.declaring_nextLabel, heading.className,
      heading.nextLabel] at ran
  refine run_map_ok some ?_
  have ranEnd := run_expectSymbol_of_reads ((ending.declaring full).passing (branchingsOf written.body))
  rw [run_bind_ok ranBody, run_bind_ok ranEnd]
  rfl

/-- Where no word follows, no subroutine does. -/
theorem run_subroutine_none (noWord : ∀ k, before.cursor.peek? ≠ some (.keyword k)) :
    (Parser.subroutine budget).run before = .ok none before := by
  have ran : subroutineKind?.run before = .ok none before := by
    rw [subroutineKind?, eatKeyword, run_bind_ok (run_eat_of_ne (noWord _)),
      if_neg Bool.false_ne_true, eatKeyword, run_bind_ok (run_eat_of_ne (noWord _)),
      if_neg Bool.false_ne_true, eatKeyword, run_bind_ok (run_eat_of_ne (noWord _))]
    rfl
  rw [Parser.subroutine, run_bind_ok ran]
  rfl

/-- Subroutines are read one by one.  Each begins with the declarations of the class alone. -/
theorem read_subroutines (written : List Subroutine)
    (reads : Reads before (written.flatMap (·.tokens)) after)
    (closes : after.cursor.peek? = some (.symbol '}')) (readsOn : ∀ s ∈ written, s.ReadsOn)
    (admissible : ∀ s ∈ written, Admissible (s.table before.className before.table)
      (statementNames s.body) (statementStrings s.body))
    (enough : before.cursor.rest.length < budget) :
    ∃ table, Items (Parser.subroutine budget)
      (resolvedSubroutines before.className before.table before.nextLabel written) before
      ((after.declaring table).passing (branchingsWithin written)) := by
  induction written generalizing before after with
  | nil =>
      obtain rfl := reads.eq_of_nil
      refine ⟨after.table, .none (run_subroutine_none ?_)⟩
      intro k
      rw [closes]
      rintro ⟨⟩
  | cons first rest ih =>
      obtain ⟨between, one, others⟩ := reads.split
      obtain ⟨readsFirst, readsRest⟩ := List.forall_mem_cons.mp readsOn
      have ranFirst := read_subroutine first one readsFirst (admissible first List.mem_cons_self) enough
      let full := first.table before.className before.table
      -- what the first subroutine has declared does not matter to the others, which clear it
      have forgotten : full.clear = before.table.clear := first.clear_table _ _
      have sameClass : between.className = before.className := one.className
      obtain ⟨table, items⟩ := ih ((others.declaring full).passing (branchingsOf first.body)) closes
        readsRest
        (by
          intro s member
          rw [State.passing_className, State.declaring_className, sameClass, State.passing_table,
            State.declaring_table, s.table_congr _ _ forgotten]
          exact admissible s (List.mem_cons_of_mem _ member))
        (by
          rw [one.length] at enough
          rw [State.passing_cursor, State.declaring_cursor]
          omega)
      refine ⟨table, .some ranFirst ?_⟩
      rw [State.passing_className, State.declaring_className, sameClass, State.passing_table,
        State.declaring_table, resolvedSubroutines_congr _ forgotten, State.passing_nextLabel,
        State.declaring_nextLabel, one.nextLabel, State.declaring_passing, State.passing_passing,
        State.declaring_declaring] at items
      exact items

theorem length_resolvedSubroutines (className : String) (table : Symbol.Table) (first : Nat)
    (written : List Subroutine) :
    (resolvedSubroutines className table first written).length = written.length := by
  induction written generalizing first with
  | nil => rfl
  | cons subroutine rest ih => rw [resolvedSubroutines, List.length_cons, ih, List.length_cons]

end Subroutines

/-! ## Classes -/

/-- Where no declaration of statics or fields follows, none is made. -/
theorem run_classVariables_none {before : State} {budget : Nat}
    (noStatic : before.cursor.peek? ≠ some (.keyword .static_))
    (noField : before.cursor.peek? ≠ some (.keyword .field)) :
    (classVariables budget).run before = .ok none before := by
  have ran : classVariableKind?.run before = .ok none before := by
    rw [classVariableKind?, eatKeyword, run_bind_ok (run_eat_of_ne noStatic),
      if_neg Bool.false_ne_true, eatKeyword, run_bind_ok (run_eat_of_ne noField)]
    rfl
  rw [classVariables, run_bind_ok ran]
  rfl

/-- The declarations of statics and fields are read. -/
theorem read_shared (shared : List ClassVariables) {before after : State} {budget : Nat}
    (reads : Reads before (shared.flatMap (·.tokens)) after)
    (noStatic : after.cursor.peek? ≠ some (.keyword .static_))
    (noField : after.cursor.peek? ≠ some (.keyword .field))
    (enough : before.cursor.rest.length < budget) :
    (many (classVariables budget) budget).run before =
      .ok (shared.map fun _ => ())
        (after.declaring (shared.foldl ClassVariables.declare before.table)) := by
  refine run_many_declare shared reads (fun _ => List.cons_ne_nil _ _) ?_ ?_ enough
  · intro declaration start stop reads fewer
    exact read_classVariables declaration reads fewer.le
  · intro table
    exact run_classVariables_none noStatic noField

/-- Subroutines in front of a closing brace do not begin with a declaration of statics or fields. -/
theorem no_variables_of_reads {written : List Subroutine} {before after : State}
    (reads : Reads before (written.flatMap (·.tokens)) after)
    (closes : after.cursor.peek? = some (.symbol '}')) (k : Keyword)
    (other : k ∈ [Keyword.static_, Keyword.field]) :
    before.cursor.peek? ≠ some (.keyword k) := by
  cases written with
  | nil =>
      rw [← reads.eq_of_nil, closes]
      rintro ⟨⟩
  | cons subroutine rest =>
      rw [List.flatMap_cons, Subroutine.tokens] at reads
      rw [Reads.peek? reads]
      rintro ⟨⟩
      revert other
      cases subroutine.kind <;> decide

/-- **A class** is read to the end of the text. -/
theorem read_class (written : Class) {before : State} {budget : Nat}
    (spelled : before.cursor.rest.map (·.token) = written.tokens) (undeclared : before.table = {})
    (readsOn : written.ReadsOn)
    (admissible : ∀ s ∈ written.subroutines, Admissible (s.table written.name written.table)
      (statementNames s.body) (statementStrings s.body))
    (enough : before.cursor.rest.length < budget) :
    ∃ after, (class_ budget).run before = .ok (written.resolved before.nextLabel) after := by
  have reads : Reads before written.tokens (before.reading []) :=
    ⟨⟨before.cursor.rest, (List.append_nil _).symm, spelled⟩, rfl⟩
  obtain ⟨begun, word, reads⟩ := reads.split_cons
  obtain ⟨named, name, reads⟩ := reads.split_cons
  obtain ⟨opened, opening, reads⟩ := reads.split_cons
  obtain ⟨declared, shared, reads⟩ := reads.split
  obtain ⟨done, subroutines, closing⟩ := reads.split
  -- each part is read in the state that the parts in front leave: named, then with variables declared
  have header := word.trans (name.trans opening)
  have declarations := header.trans shared
  have noVariables := no_variables_of_reads subroutines closing.peek?
  have ranVariables : (many (classVariables budget) budget).run (opened.naming written.name) =
      .ok (written.shared.map fun _ => ())
        ((declared.naming written.name).declaring written.table) := by
    have fewer : (opened.naming written.name).cursor.rest.length < budget := by
      rw [header.length] at enough
      rw [State.naming_cursor]
      omega
    have ran := read_shared written.shared (shared.naming written.name)
      (noVariables _ (by decide)) (noVariables _ (by decide)) fewer
    rwa [State.naming_table, header.table, undeclared] at ran
  have fewer : declared.cursor.rest.length < budget := by
    rw [declarations.length] at enough
    omega
  obtain ⟨table, items⟩ := read_subroutines written.subroutines
    ((subroutines.naming written.name).declaring written.table) closing.peek? readsOn
    (fun s member => admissible s member) fewer
  have numbered : declared.nextLabel = before.nextLabel := declarations.nextLabel
  have ranSubroutines : (many (Parser.subroutine budget) budget).run
      ((declared.naming written.name).declaring written.table) =
      .ok (resolvedSubroutines written.name written.table before.nextLabel written.subroutines)
        ((((done.naming written.name).declaring written.table).declaring table).passing
          written.branchings) := by
    rw [← numbered]
    refine run_many items ?_
    have few : written.subroutines.length ≤ (written.subroutines.flatMap (·.tokens)).length :=
      length_le_flatMap (fun _ => List.cons_ne_nil _ _) written.subroutines
    rw [length_resolvedSubroutines]
    rw [subroutines.length] at fewer
    omega
  have count : written.table.count .field = counted written.fieldCount := written.count_table
  let reached := (((before.reading []).naming written.name).declaring table).passing
    written.branchings
  have ranEnd : (expectSymbol '}').run
      ((((done.naming written.name).declaring written.table).declaring table).passing
        written.branchings) = .ok () reached :=
    run_expectSymbol_of_reads
      (((closing.naming written.name).declaring table).passing written.branchings)
  refine ⟨reached, ?_⟩
  rw [class_, run_bind_ok (run_expectKeyword_of_reads word),
    run_bind_ok (run_identifier_of_reads name)]
  show (do
      expectSymbol '{'
      let _ ← many (classVariables budget) budget
      let fields := (← get).table.count .field
      let subroutines ← many (Parser.subroutine budget) budget
      expectSymbol '}'
      unless (← get).cursor.atEnd do stop (.described "end of input")
      return ⟨written.name, fields, subroutines⟩ : Parser Jack.Class).run
        (named.naming written.name) = _
  rw [run_bind_ok (run_expectSymbol_of_reads (opening.naming written.name)),
    run_bind_ok ranVariables]
  show (do
      let subroutines ← many (Parser.subroutine budget) budget
      expectSymbol '}'
      unless (← get).cursor.atEnd do stop (.described "end of input")
      return ⟨written.name, written.table.count .field, subroutines⟩ : Parser Jack.Class).run
        ((declared.naming written.name).declaring written.table) = _
  rw [run_bind_ok ranSubroutines, run_bind_ok ranEnd, count]
  rfl

end Written

end JackToolchain.Jack

import JackToolchain.Jack.Session
import JackToolchain.Proofs.Jack.Consumption

/-!
# Label numbers

How many label numbers a parser takes, whether it succeeds or stops with a fault.

## Main Definitions

* `beginsBranching` — the words that begin branching statements.
* `Numbering` — between two states as many numbers are taken as branching statements begin in the tokens
  that are read.
* `Parser.Counts` — wherever a parser ends, it has taken numbers in this way.

* `Session.tokensRead` — the tokens of a text that are read until its compilation ends.

## Main Statements

* `Parser.CountsAt.bind` — sequences, of which the second part may not be reached.
* `Parser.counts_term`, `Parser.counts_statement`, `Parser.counts_class` — so do the parsers of terms,
  statements and classes.
* `Session.nextLabel_compile` — the numbers that compiling a text takes, whatever becomes of it.

## Design Notes

A number is taken before the word that begins its statement is read, so not every step of a parser counts
on its own: a branch does so where its word is next.  That is why the property is stated at a state first.
-/

namespace JackToolchain.Jack

/-- The words that begin branching statements. -/
def beginsBranching : Token → Bool
  | .keyword .if_ | .keyword .while_ => true
  | _ => false

/-- **Numbering.**  Between two states as many numbers are taken as branching statements begin in the
tokens that are read. -/
def Numbering (before after : State) : Prop :=
  ∃ read, before.cursor.rest = read ++ after.cursor.rest ∧
    after.nextLabel = before.nextLabel + (read.map (·.token)).countP beginsBranching

namespace Numbering

variable {before between after : State}

theorem refl (state : State) : Numbering state state := ⟨[], rfl, rfl⟩

theorem trans (first : Numbering before between) (second : Numbering between after) :
    Numbering before after := by
  obtain ⟨read, unread, taken⟩ := first
  obtain ⟨further, unreadBehind, takenBehind⟩ := second
  refine ⟨read ++ further, ?_, ?_⟩
  · rw [unread, unreadBehind, List.append_assoc]
  · rw [takenBehind, taken, List.map_append, List.countP_append, Nat.add_assoc]

/-- Tokens that begin no branching statement take no number. -/
theorem of_reads {tokens : List Token} (reads : Reads before tokens after)
    (plain : ∀ token ∈ tokens, beginsBranching token = false) : Numbering before after := by
  obtain ⟨read, unread, rfl⟩ := reads.spelled
  refine ⟨read, unread, ?_⟩
  rw [reads.nextLabel, List.countP_eq_zero.mpr fun token member => by simp [plain token member]]
  rfl

end Numbering

namespace Parser

variable {α β : Type}

/-- The state in which a parser ends. -/
def reached : EStateM.Result Fault State α → State
  | .ok _ state | .error _ state => state

/-- From a state on, a parser takes a number for each branching statement that it begins to read. -/
def CountsAt (before : State) (parser : Parser α) : Prop := Numbering before (reached (parser.run before))

/-- **Counting**, from every state on. -/
def Counts (parser : Parser α) : Prop := ∀ before, CountsAt before parser

/-! ## Sequences -/

section Sequences

variable {before : State} {first : Parser α} {next : α → Parser β}

/-- **A sequence** counts if both parts do; where the first stops, the second is not reached. -/
theorem CountsAt.bind (counts : CountsAt before first)
    (behind : ∀ value between, first.run before = .ok value between → CountsAt between (next value)) :
    CountsAt before (first >>= next) := by
  unfold CountsAt at counts ⊢
  rw [EStateM.run_bind]
  cases ran : first.run before with
  | error fault between =>
      rw [ran] at counts
      exact counts
  | ok value between =>
      rw [ran] at counts
      exact counts.trans (behind value between ran)

theorem Counts.bind (counts : Counts first) (behind : ∀ value, Counts (next value)) :
    Counts (first >>= next) :=
  fun before => (counts before).bind fun value between _ => behind value between

theorem CountsAt.map {f : α → β} (counts : CountsAt before first) : CountsAt before (f <$> first) := by
  rw [map_eq_pure_bind]
  exact counts.bind fun value between _ => Numbering.refl between

theorem Counts.map {f : α → β} (counts : Counts first) : Counts (f <$> first) :=
  fun before => (counts before).map

theorem counts_pure (value : α) : Counts (pure value) := Numbering.refl

theorem counts_throw (fault : Fault) : Counts (throw fault : Parser α) := Numbering.refl

theorem counts_stop (what : Expected) : Counts (stop what : Parser α) := counts_throw _

/-- What the next token decides. -/
theorem CountsAt.peek {choice : Option Token → Parser β}
    (counts : CountsAt before (choice before.cursor.peek?)) :
    CountsAt before (peek? >>= choice) := counts

theorem CountsAt.peekAt {choice : Option Token → Parser β} {distance : Nat}
    (counts : CountsAt before (choice (before.cursor.peekAt? distance))) :
    CountsAt before (peekAt? distance >>= choice) := counts

theorem counts_get : Counts (get : Parser State) := Numbering.refl

theorem counts_lookup? (name : String) : Counts (lookup? name) := Numbering.refl

/-- Changes of what has been declared. -/
theorem counts_modify {change : State → State} (cursor : ∀ state, (change state).cursor = state.cursor)
    (nextLabel : ∀ state, (change state).nextLabel = state.nextLabel) :
    Counts (modify change : Parser PUnit) := by
  intro before
  refine ⟨[], ?_, nextLabel before⟩
  exact (congrArg Cursor.rest (cursor before)).symm

end Sequences

/-! ## Single tokens -/

section Tokens

variable {before : State} {token : Token}

/-- A token is read that begins no branching statement. -/
theorem countsAt_advance (found : before.cursor.peek? = some token)
    (plain : beginsBranching token = false) : CountsAt before advance :=
  .of_reads (advance_eq_ok rfl found) (List.forall_mem_singleton.mpr plain)

theorem counts_eat (plain : beginsBranching token = false) : Counts (eat token) := by
  intro before
  have unread : CountsAt before (isNext token) := .refl before
  refine unread.bind fun found between looked => ?_
  obtain ⟨rfl, rfl⟩ := isNext_eq_ok looked
  split
  · rename_i isNext
    exact (countsAt_advance (eq_of_beq isNext) plain).bind fun _ between _ => counts_pure true between
  · exact counts_pure false _

theorem counts_expect {spelling : String} (plain : beginsBranching token = false) :
    Counts (expect token spelling) := by
  refine (counts_eat plain).bind fun hit => ?_
  split
  · exact counts_pure _
  · exact counts_stop _

theorem counts_eatSymbol (c : Char) : Counts (eatSymbol c) := counts_eat rfl

theorem counts_expectSymbol (c : Char) : Counts (expectSymbol c) := counts_expect rfl

theorem counts_identifier : Counts identifier := by
  intro before
  refine CountsAt.peek ?_
  split
  · rename_i name found
    exact (countsAt_advance found rfl).bind fun _ between _ => counts_pure name between
  · exact counts_stop _ before

/-- No type begins a branching statement. -/
theorem plain_of_typeOf? {allowVoid : Bool} {type : String}
    (isType : typeOf? allowVoid token = some type) : beginsBranching token = false := by
  cases token with
  | keyword k => cases k <;> first | rfl | exact absurd isType.symm (Option.some_ne_none type)
  | identifier | symbol | integer | text => rfl

theorem counts_typeName (allowVoid : Bool) : Counts (typeName allowVoid) := by
  intro before
  refine CountsAt.peek ?_
  split
  · rename_i type isType
    obtain ⟨token, found, isType⟩ := Option.bind_eq_some_iff.mp isType
    exact (countsAt_advance found (plain_of_typeOf? isType)).bind
      fun _ between _ => counts_pure type between
  · exact counts_stop _ before

theorem counts_place (name : String) : Counts (place name) := by
  refine (counts_lookup? name).bind fun found => ?_
  split
  · exact counts_pure _
  · exact counts_throw _

theorem counts_define (name type : String) (kind : Symbol.Kind) : Counts (define name type kind) :=
  counts_modify (fun _ => rfl) fun _ => rfl

/-- **A number is taken** for a branching statement whose word is next. -/
theorem countsAt_freshLabel {k : Keyword} {next : Nat → Parser β}
    (found : before.cursor.peek? = some (.keyword k)) (branching : beginsBranching (.keyword k) = true)
    (behind : ∀ number, Counts (next number)) :
    CountsAt before (do let number ← freshLabel; expectKeyword k; next number) := by
  obtain ⟨located, atHead, same⟩ := Option.map_eq_some_iff.mp found
  obtain ⟨rest, unread⟩ := List.head?_eq_some_iff.mp atHead
  have expected : (expectKeyword k).run (before.passing 1) =
      .ok () ((before.passing 1).reading rest) := by
    have ran : (expectKeyword k).run ((before.passing 1).reading (located :: rest)) =
        .ok () ((before.passing 1).reading rest) := run_expectKeyword _ same
    rwa [← unread] at ran
  have taken : Numbering before ((before.passing 1).reading rest) := by
    refine ⟨[located], unread, ?_⟩
    rw [List.map_singleton, same, List.countP_singleton, if_pos branching]
    rfl
  show Numbering before (reached ((expectKeyword k >>= fun _ => next before.nextLabel).run
    (before.passing 1)))
  rw [run_bind_ok expected]
  exact taken.trans (behind _ _)

end Tokens

/-! ## Repetition -/

section Repetition

theorem counts_many {item? : Parser (Option α)} (counts : Counts item?) (budget : Nat) :
    Counts (many item? budget) := by
  induction budget with
  | zero => exact counts_pure _
  | succ budget ih =>
      refine counts.bind fun found => ?_
      split
      · exact ih.bind fun items => counts_pure _
      · exact counts_pure _

theorem counts_commaSeparated {item : Parser α} (counts : Counts item) (budget : Nat) :
    Counts (commaSeparated item budget) := by
  have behind : Counts (further item) := by
    refine (counts_eatSymbol ',').bind fun hit => ?_
    split
    · exact counts.map
    · exact counts_pure _
  exact counts.bind fun first => (counts_many behind budget).bind fun rest => counts_pure _

end Repetition

/-! ## Expressions -/

section Expressions

theorem counts_operation {term : Parser Term} (counts : Counts term) : Counts (operation term) := by
  intro before
  refine CountsAt.peek ?_
  split
  · rename_i c found
    split
    · refine (countsAt_advance found rfl).bind fun _ between _ => ?_
      exact counts.bind (fun operand => counts_pure _) between
    · exact counts_pure _ before
  · exact counts_pure _ before

theorem counts_expression {term : Parser Term} (counts : Counts term) (budget : Nat) :
    Counts (expression term budget) :=
  counts.bind fun _ => (counts_many (counts_operation counts) budget).bind fun _ => counts_pure _

variable {expression : Parser Expression}

theorem counts_arguments (counts : Counts expression) (budget : Nat) :
    Counts (arguments expression budget) := by
  have looked : Counts (isNext (.symbol ')')) := Numbering.refl
  refine looked.bind fun found => ?_
  split
  · exact counts_pure _
  · exact counts_commaSeparated counts budget

theorem counts_callee : Counts callee := by
  refine counts_identifier.bind fun name => (counts_eatSymbol '.').bind fun hit => ?_
  split
  · refine counts_identifier.bind fun method => (counts_lookup? name).bind fun found => ?_
    split <;> exact counts_pure _
  · exact counts_get.bind fun state => counts_pure _

theorem counts_call (counts : Counts expression) (budget : Nat) : Counts (call expression budget) :=
  counts_callee.bind fun _ => (counts_expectSymbol '(').bind fun _ =>
    (counts_arguments counts budget).bind fun _ => (counts_expectSymbol ')').bind fun _ =>
      counts_pure _

theorem countsAt_stringConstant {before : State} {content : String}
    (found : before.cursor.peek? = some (.text content)) : CountsAt before (stringConstant content) := by
  unfold stringConstant
  split
  · exact counts_throw _ before
  · split
    · exact (countsAt_advance found rfl).bind fun _ between _ => counts_pure _ between
    · exact counts_throw _ before

/-- A term that is one token. -/
theorem countsAt_single {before : State} {token : Token} {value : α}
    (found : before.cursor.peek? = some token) (plain : beginsBranching token = false) :
    CountsAt before (do advance; return value) :=
  (countsAt_advance found plain).bind fun _ between _ => counts_pure value between

/-- **Terms** count. -/
theorem counts_term (budget : Nat) : Counts (term budget) := by
  induction budget with
  | zero => exact counts_stop _
  | succ budget ih =>
      have inner := counts_expression ih budget
      intro before
      refine CountsAt.peek ?_
      split
      case h_1 value found => exact countsAt_single found rfl
      case h_2 content found => exact countsAt_stringConstant found
      case h_3 found => exact countsAt_single found rfl
      case h_4 found => exact countsAt_single found rfl
      case h_5 found => exact countsAt_single found rfl
      case h_6 found => exact countsAt_single found rfl
      case h_7 name found =>
        refine CountsAt.peekAt ?_
        split
        · rename_i opened
          -- two tokens are passed over before the array is looked up
          refine (countsAt_advance found rfl).bind fun _ between ran => ?_
          obtain rfl := modify_eq_ok ran
          have second : before.cursor.advance.peek? = some (.symbol '[') := by
            rw [← opened, Cursor.peek?, Cursor.advance, List.head?_tail, Cursor.peekAt?]
          refine (countsAt_advance second rfl).bind fun _ between _ => ?_
          exact (counts_place name).bind (fun _ => inner.bind fun _ =>
            (counts_expectSymbol ']').bind fun _ => counts_pure _) between
        · exact (counts_call inner budget).bind (fun _ => counts_pure _) before
        · exact (counts_call inner budget).bind (fun _ => counts_pure _) before
        · refine (countsAt_advance found rfl).bind fun _ between _ => ?_
          exact (counts_place name).bind (fun _ => counts_pure _) between
      case h_8 found =>
        refine (countsAt_advance found rfl).bind fun _ between _ => ?_
        exact inner.bind (fun _ => (counts_expectSymbol ')').bind fun _ => counts_pure _) between
      case h_9 c _ found =>
        split
        · refine (countsAt_advance found rfl).bind fun _ between _ => ?_
          exact ih.bind (fun operand => counts_pure _) between
        · exact counts_stop _ before
      case h_10 => exact counts_stop _ before

end Expressions

/-! ## Statements -/

section Statements

theorem counts_value (budget : Nat) : Counts (value budget) :=
  counts_expression (counts_term budget) budget

theorem counts_condition (budget : Nat) : Counts (condition budget) :=
  (counts_expectSymbol '(').bind fun _ => (counts_value budget).bind fun _ =>
    (counts_expectSymbol ')').bind fun _ => counts_pure _

theorem counts_assignment (budget : Nat) : Counts (assignment budget) := by
  refine (counts_expect rfl).bind fun _ => counts_identifier.bind fun name =>
    (counts_eatSymbol '[').bind fun hit => ?_
  split
  · exact (counts_place name).bind fun _ => (counts_value budget).bind fun _ =>
      (counts_expectSymbol ']').bind fun _ => (counts_expectSymbol '=').bind fun _ =>
        (counts_value budget).bind fun _ => (counts_expectSymbol ';').bind fun _ => counts_pure _
  · exact (counts_expectSymbol '=').bind fun _ => (counts_value budget).bind fun _ =>
      (counts_place name).bind fun _ => (counts_expectSymbol ';').bind fun _ => counts_pure _

theorem counts_callStatement (budget : Nat) : Counts (callStatement budget) :=
  (counts_expect rfl).bind fun _ => (counts_call (counts_value budget) budget).bind fun _ =>
    (counts_expectSymbol ';').bind fun _ => counts_pure _

theorem counts_leave (budget : Nat) : Counts (leave budget) := by
  have looked : Counts (isNext (.symbol ';')) := Numbering.refl
  refine (counts_expect rfl).bind fun _ => looked.bind fun found => ?_
  have ended (value : Option Expression) : Counts (do expectSymbol ';'; return Statement.leave value) :=
    (counts_expectSymbol ';').bind fun _ => counts_pure _
  split
  · exact (counts_pure none).bind ended
  · exact (counts_value budget).map.bind ended

variable {statements : Parser (List Statement)} {before : State}

theorem counts_block (counts : Counts statements) : Counts (block statements) :=
  (counts_expectSymbol _).bind fun _ => counts.bind fun _ =>
    (counts_expectSymbol _).bind fun _ => counts_pure _

/-- A branch counts where its word is next… -/
theorem countsAt_branch (counts : Counts statements) (budget : Nat)
    (found : before.cursor.peek? = some (.keyword .if_)) : CountsAt before (branch statements budget) := by
  refine countsAt_freshLabel found rfl fun number => (counts_condition budget).bind fun _ =>
    (counts_block counts).bind fun _ => (counts_eat rfl).bind fun hit => ?_
  split
  · exact (counts_block counts).bind fun _ => counts_pure _
  · exact (counts_pure []).bind fun _ => counts_pure _

/-- …and so does a loop. -/
theorem countsAt_loop (counts : Counts statements) (budget : Nat)
    (found : before.cursor.peek? = some (.keyword .while_)) :
    CountsAt before (loop statements budget) :=
  countsAt_freshLabel found rfl fun _ => (counts_condition budget).bind fun _ =>
    (counts_block counts).bind fun _ => counts_pure _

/-- **Statements** count. -/
theorem counts_statement (budget : Nat) : Counts (statement budget) := by
  induction budget with
  | zero => exact counts_pure none
  | succ budget ih =>
      have inner := counts_many ih budget
      intro before
      refine CountsAt.peek ?_
      split
      · exact (counts_assignment budget).map before
      · rename_i found
        exact CountsAt.map (countsAt_branch inner budget found)
      · rename_i found
        exact CountsAt.map (countsAt_loop inner budget found)
      · exact (counts_callStatement budget).map before
      · exact (counts_leave budget).map before
      · exact counts_pure none before

end Statements

/-! ## Classes -/

section Classes

theorem counts_names (type : String) (kind : Symbol.Kind) (budget : Nat) :
    Counts (names type kind budget) := by
  have declared : Counts (do define (← identifier) type kind) :=
    counts_identifier.bind fun name => counts_define name type kind
  exact (counts_commaSeparated declared budget).bind fun _ => counts_pure _

theorem counts_declarations (kind : Symbol.Kind) (budget : Nat) : Counts (declarations kind budget) :=
  (counts_typeName false).bind fun type => (counts_names type kind budget).bind fun _ =>
    (counts_expectSymbol ';').bind fun _ => counts_pure _

theorem counts_classVariables (budget : Nat) : Counts (classVariables budget) := by
  have kind : Counts classVariableKind? := by
    refine (counts_eat rfl).bind fun isStatic => ?_
    split
    · exact counts_pure _
    · refine (counts_eat rfl).bind fun isField => ?_
      split <;> exact counts_pure _
  refine kind.bind fun found => ?_
  split
  · exact (counts_declarations _ budget).bind fun _ => counts_pure _
  · exact counts_pure _

theorem counts_locals (budget lines : Nat) : Counts (locals budget lines) := by
  have line : Counts (localVariables budget) := by
    refine (counts_eat rfl).bind fun hit => ?_
    split
    · exact counts_declarations .var budget
    · exact counts_pure _
  induction lines with
  | zero => exact counts_pure _
  | succ lines ih =>
      refine line.bind fun count => ?_
      split
      · exact ih
      · exact counts_pure _

theorem counts_parameters (budget : Nat) : Counts (parameters budget) := by
  have looked : Counts (isNext (.symbol ')')) := Numbering.refl
  have parameter : Counts parameter := (counts_typeName false).bind fun type =>
    counts_identifier.bind fun name => counts_define name type .argument
  refine looked.bind fun found => ?_
  split
  · exact counts_pure _
  · exact (counts_commaSeparated parameter budget).bind fun _ => counts_pure _

theorem counts_subroutineKind? : Counts subroutineKind? := by
  refine (counts_eat rfl).bind fun isConstructor => ?_
  split
  · exact counts_pure _
  · refine (counts_eat rfl).bind fun isFunction => ?_
    split
    · exact counts_pure _
    · refine (counts_eat rfl).bind fun isMethod => ?_
      split <;> exact counts_pure _

theorem counts_beginSubroutine (kind : SubroutineKind) : Counts (beginSubroutine kind) := by
  have forgotten : Counts (modify fun state => { state with table := state.table.clear }) :=
    counts_modify (fun _ => rfl) fun _ => rfl
  refine forgotten.bind fun _ => ?_
  split
  · exact counts_get.bind fun state => counts_define _ _ _
  · exact counts_pure _

theorem counts_subroutineOf (kind : SubroutineKind) (budget : Nat) :
    Counts (subroutineOf kind budget) :=
  (counts_beginSubroutine kind).bind fun _ => (counts_typeName true).bind fun _ =>
    counts_identifier.bind fun _ => (counts_expectSymbol '(').bind fun _ =>
      (counts_parameters budget).bind fun _ => (counts_expectSymbol ')').bind fun _ =>
        (counts_expectSymbol _).bind fun _ =>
          (counts_locals budget budget).bind fun _ => counts_get.bind fun _ =>
            (counts_many (counts_statement budget) budget).bind fun _ =>
              (counts_expectSymbol _).bind fun _ => counts_pure _

theorem counts_subroutine (budget : Nat) : Counts (subroutine budget) := by
  refine counts_subroutineKind?.bind fun found => ?_
  split
  · exact (counts_subroutineOf _ budget).map
  · exact counts_pure _

/-- **Classes** count. -/
theorem counts_class (budget : Nat) : Counts (class_ budget) := by
  have named (name : String) : Counts (modify fun state => { state with className := name }) :=
    counts_modify (fun _ => rfl) fun _ => rfl
  refine (counts_expect rfl).bind fun _ => counts_identifier.bind fun name =>
    (named name).bind fun _ => (counts_expectSymbol _).bind fun _ =>
      (counts_many (counts_classVariables budget) budget).bind fun _ => counts_get.bind fun _ =>
        (counts_many (counts_subroutine budget) budget).bind fun _ =>
          (counts_expectSymbol _).bind fun _ => counts_get.bind fun state => ?_
  split
  · exact (counts_pure _).bind fun _ => counts_pure _
  · exact (counts_stop _).bind fun _ => counts_pure _

end Classes

end Parser

/-! ## Sessions -/

namespace Session

/-- The state in which the compilation of tokens ends. -/
def reached (session : Session) (tokens : List Located) : State :=
  Parser.reached ((Parser.class_ (readingBudget tokens)).run (.ofTokens tokens session.nextLabel))

/-- The tokens of a text that are read until its compilation ends, with a class or with an error. -/
def tokensRead (session : Session) (source : String) : List Token :=
  match tokenize source with
  | .ok tokens =>
    (tokens.take (tokens.length - (session.reached tokens).cursor.rest.length)).map (·.token)
  | .error _ => []

/-- **Numbers are never set back.**  Compiling a text takes one number for each branching statement that
begins in the tokens that are read, also if the text is refused. -/
theorem nextLabel_compile (session : Session) (source : String) :
    (session.compile source).2.nextLabel =
      session.nextLabel + (session.tokensRead source).countP beginsBranching := by
  rw [compile, tokensRead]
  cases tokenize source with
  | error error => rfl
  | ok tokens =>
      obtain ⟨read, unread, taken⟩ :=
        Parser.counts_class (readingBudget tokens) (.ofTokens tokens session.nextLabel)
      have whole : tokens = read ++ (session.reached tokens).cursor.rest := unread
      have front : tokens.take (tokens.length - (session.reached tokens).cursor.rest.length) = read := by
        have length := congrArg List.length whole
        rw [List.length_append] at length
        rw [length, Nat.add_sub_cancel]
        exact (congrArg (List.take read.length) whole).trans List.take_left
      dsimp only
      rw [front]
      have passed : (session.compileTokens tokens).2.nextLabel =
          (session.reached tokens).nextLabel := by
        unfold compileTokens reached
        split <;> rename_i ran <;> rw [ran] <;> rfl
      rw [passed]
      exact taken

/-- Compiling does not change the library. -/
theorem library_compile (session : Session) (source : String) :
    (session.compile source).2.library = session.library := by
  unfold compile
  split
  · unfold compileTokens
    split <;> rfl
  · rfl

end Session

end JackToolchain.Jack

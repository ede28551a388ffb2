import JackToolchain.Proofs.Jack.Drafts
import JackToolchain.Proofs.Jack.ExpressionRecognition
import JackToolchain.Proofs.Jack.Positions

/-!
# Reading with barriers

The reader that keeps open brackets on the operator stack does what the reader of trees and the code generator do
together.

## Main Definitions

* `AgreesOnTerm` — the two readers agree on a term and what follows it.
* `Settled` — a state from which they agree, with all budgets that are large enough.
* `EndsChain` — what is done at the end of a chain, said without the chain.

## Main Statements

* `run_chain_then` — a chain on a floor is an expression in front of what ends it there.
* `endsChain_bare`, `endsChain_round`, `endsChain_square` — what ends a chain: anything, or the bracket that closes the
  barrier of the floor.
* `settled` — the readers agree from every state on.
* `run_barrier_expression`, `run_barrier_index`, `run_barrier_call` — expressions, indices and calls are accepted,
  refused and reported alike, and the code that is written is that of the tree.

## Design Notes

Behind an opening parenthesis the reader with barriers returns after one term, and the chain in which it stands goes on
with what is in the parentheses.  So a term is never compared alone: it is compared with what follows it, and the
reader of trees is followed by the same chain (`AgreesOnTerm`).  The induction is on the number of unread tokens.
-/

namespace JackToolchain.Jack

open Vm

/-! ## Steps of the readers -/

/-- How many tokens are unread. -/
def State.unread (state : State) : Nat := state.cursor.rest.length

/-- The position behind the next token. -/
def State.advanced (state : State) : State := { state with cursor := state.cursor.advance }

/-- No binary operator is next. -/
def State.NoOperator (state : State) : Prop :=
  ∀ c, state.cursor.peek? = some (.symbol c) → BinaryOperator.ofSymbol? c = none

/-- What is read is unread no more. -/
theorem Reads.unread {before after : State} {tokens : List Token} (reads : Reads before tokens after) :
    before.unread = tokens.length + after.unread :=
  reads.length

theorem State.unread_advanced {state : State} {token : Token} (next : state.cursor.peek? = some token) :
    state.advanced.unread < state.unread := by
  have reads : Reads state [token] state.advanced := Parser.advance_eq_ok rfl next
  have length := reads.unread
  rw [List.length_singleton] at length
  omega

section Steps

open JackToolchain.Jack.Parser

variable {library : Library} {state : State} {draft : Draft} {budget : Nat}

/-- A sequence is the same if it goes on in the same way wherever its first part ends. -/
theorem run_bind_congr {α β : Type} {first : Parser α} {next other : α → Parser β}
    (same : ∀ result after, first.run state = .ok result after → (next result).run after = (other result).run after) :
    (first >>= next).run state = (first >>= other).run state := by
  cases ran : first.run state with
  | ok result after => rw [run_bind_ok ran, run_bind_ok ran, same result after ran]
  | error fault reached => rw [run_bind_error ran, run_bind_error ran]

theorem run_peek?_of_next {found : Option Token} (next : state.cursor.peek? = found) :
    peek?.run state = .ok found state := by
  rw [← next]
  rfl

theorem run_term_end (next : state.cursor.peek? = none) :
    (Barrier.term library (budget + 1) draft).run state = .error (.expected (.described "term")) state := by
  have looked := run_peek?_of_next next
  rw [Barrier.term, run_bind_ok looked]
  rfl

theorem run_rest_operator (operator : BinaryOperator) (next : state.cursor.peek? = some (.symbol operator.symbol)) :
    (Barrier.rest library (budget + 1) draft).run state =
      (Barrier.term library budget (draft.push library (.binary operator)) >>= Barrier.rest library budget).run
        state.advanced := by
  have looked := run_peek?_of_next next
  rw [Barrier.rest, run_bind_ok looked]
  cases operator <;> rfl

theorem run_rest_round (next : state.cursor.peek? = some (.symbol ')')) :
    (Barrier.rest library (budget + 1) draft).run state =
      (match draft.stack.nearestBarrier? with
        | some .round => (Barrier.rest library budget (draft.close library .round)).run state.advanced
        | some .square => (Barrier.missing .square).run state
        | none => (Barrier.finish library draft).run state) := by
  have looked := run_peek?_of_next next
  rw [Barrier.rest, run_bind_ok looked]
  rcases draft.stack.nearestBarrier? with _ | _ | _ <;> rfl

theorem run_rest_square (next : state.cursor.peek? = some (.symbol ']')) :
    (Barrier.rest library (budget + 1) draft).run state =
      (match draft.stack.nearestBarrier? with
        | some .square => .ok (draft.close library .square) state
        | some .round => (Barrier.missing .round).run state
        | none => (Barrier.finish library draft).run state) := by
  have looked := run_peek?_of_next next
  rw [Barrier.rest, run_bind_ok looked]
  rcases draft.stack.nearestBarrier? with _ | _ | _ <;> rfl

theorem run_rest_finish (noOperator : state.NoOperator) (notRound : state.cursor.peek? ≠ some (.symbol ')'))
    (notSquare : state.cursor.peek? ≠ some (.symbol ']')) :
    (Barrier.rest library (budget + 1) draft).run state = (Barrier.finish library draft).run state := by
  have looked : peek?.run state = .ok state.cursor.peek? state := rfl
  rw [Barrier.rest, run_bind_ok looked]
  split
  · rename_i next
    exact absurd next notSquare
  · rename_i next
    exact absurd next notRound
  · rename_i c _ _ next
    rw [noOperator c next]
  · rfl

theorem run_operation (term : Parser Term) (operator : BinaryOperator)
    (next : state.cursor.peek? = some (.symbol operator.symbol)) :
    (operation term).run state = (do return some (operator, ← term) : Parser _).run state.advanced := by
  have looked := run_peek?_of_next next
  rw [operation, run_bind_ok looked]
  cases operator <;> rfl

theorem run_operation_none (term : Parser Term) (noOperator : state.NoOperator) :
    (operation term).run state = .ok none state := by
  have looked : peek?.run state = .ok state.cursor.peek? state := rfl
  rw [operation, run_bind_ok looked]
  split
  · rename_i c next
    rw [noOperator c next]
    rfl
  · rfl

end Steps

/-! ## Agreement -/

section Agreement

open JackToolchain.Jack.Parser

/-- One of the binary operators is next, or none is. -/
theorem State.operator_or (state : State) :
    (∃ operator : BinaryOperator, state.cursor.peek? = some (.symbol operator.symbol)) ∨ state.NoOperator := by
  by_cases none : state.NoOperator
  · exact .inr none
  · left
    unfold NoOperator at none
    push Not at none
    obtain ⟨c, next, isOperator⟩ := none
    obtain ⟨operator, isOperator⟩ := Option.ne_none_iff_exists'.mp isOperator
    exact ⟨operator, by rw [BinaryOperator.symbol_of_ofSymbol? isOperator, next]⟩

theorem run_bind_of_run {α β : Type} {first other : Parser α} {before after : State}
    (same : first.run before = other.run after) (next : α → Parser β) :
    (first >>= next).run before = (other >>= next).run after := by
  rw [EStateM.run_bind, EStateM.run_bind, same]

/-- What a term is leaves no more unread than there was. -/
theorem unread_le_of_term {budget : Nat} {before after : State} {term : Term}
    (ran : (Parser.term budget).run before = .ok term after) : after.unread ≤ before.unread := by
  obtain ⟨written, reads, -, -⟩ := Written.recognizes_term budget before term after ran
  have length := reads.unread
  omega

variable (library : Library)

/-- **Agreement on a term**, followed by what follows it. -/
def AgreesOnTerm (state : State) (draft : Draft) (budget inner left right : Nat) : Prop :=
  (Barrier.term library budget draft >>= Barrier.rest library left).run state =
    (Parser.term inner >>= fun term => Barrier.rest library right (draft.after library term)).run state

/-- **Settled states.**  From such a state on the two readers agree, whatever their budgets are as long as they are
large enough. -/
structure Settled (state : State) : Prop where
  rest : ∀ (draft : Draft) {budget other : Nat}, state.unread < budget → state.unread < other →
    (Barrier.rest library budget draft).run state = (Barrier.rest library other draft).run state
  term : ∀ (draft : Draft) {budget inner left right : Nat}, state.unread < budget → state.unread < inner →
    state.unread < left → state.unread < right → AgreesOnTerm library state draft budget inner left right

variable {library} {state : State}

theorem Settled.rest_of_behind (behind : ∀ after, after.unread < state.unread → Settled library after) (draft : Draft)
    {budget other : Nat} (enough : state.unread < budget) (enoughToo : state.unread < other) :
    (Barrier.rest library budget draft).run state = (Barrier.rest library other draft).run state := by
  obtain ⟨budget, rfl⟩ := Nat.exists_eq_succ_of_ne_zero (Nat.ne_zero_of_lt enough)
  obtain ⟨other, rfl⟩ := Nat.exists_eq_succ_of_ne_zero (Nat.ne_zero_of_lt enoughToo)
  rcases state.operator_or with ⟨operator, next⟩ | noOperator
  · have fewer := state.unread_advanced next
    have settled := behind _ fewer
    have term {budget : Nat} (enough : state.unread < budget + 1) :=
      have above : state.advanced.unread < budget := by omega
      settled.term (draft.push library (.binary operator)) above fewer above fewer
    rw [run_rest_operator operator next, run_rest_operator operator next, term enough, term enoughToo]
  by_cases round : state.cursor.peek? = some (.symbol ')')
  · rw [run_rest_round round, run_rest_round round]
    have fewer := state.unread_advanced round
    split
    · exact (behind _ fewer).rest _ (by omega) (by omega)
    · rfl
    · rfl
  by_cases square : state.cursor.peek? = some (.symbol ']')
  · rw [run_rest_square square, run_rest_square square]
  · rw [run_rest_finish noOperator round square, run_rest_finish noOperator round square]

theorem run_many_operator {term : Parser Term} {budget : Nat} (operator : BinaryOperator)
    (next : state.cursor.peek? = some (.symbol operator.symbol)) :
    (many (operation term) (budget + 1)).run state =
      (do let operand ← term; return (operator, operand) :: (← many (operation term) budget) : Parser _).run
        state.advanced := by
  rw [many, run_bind_of_run (run_operation term operator next)]
  simp only [bind_assoc, pure_bind]

theorem run_many_none {term : Parser Term} {budget : Nat} (noOperator : state.NoOperator) :
    (many (operation term) (budget + 1)).run state = .ok [] state := by
  rw [many, run_bind_ok (run_operation_none term noOperator)]
  rfl

/-- **What ends a chain** on a floor: where no operator follows, what is done next comes down to `ending`. -/
def EndsChain (library : Library) {α : Type} (most : Nat) (floor : List Pending) (next ending : Draft → Parser α) :
    Prop :=
  ∀ (state : State) (draft : Draft) (budget : Nat), state.unread ≤ most → state.unread < budget →
    state.NoOperator → draft.stack.StandsOn floor →
    (Barrier.rest library budget draft >>= next).run state = (ending draft).run state

section Chains

variable {α : Type} {most inner : Nat} {floor : List Pending} {draft : Draft} {next ending : Draft → Parser α}
  (isFloor : IsFloor floor) (settled : ∀ state, state.unread ≤ most → Settled library state)
  (ends : EndsChain library most floor next ending)

include isFloor settled ends

/-- **What follows a term** is a chain of operators and terms in front of what ends it. -/
theorem run_rest_then {left budget : Nat} (few : state.unread ≤ most) (enough : state.unread < inner)
    (enoughLeft : state.unread < left) (enoughMany : state.unread < budget) (stands : draft.stack.StandsOn floor) :
    (Barrier.rest library left draft >>= next).run state =
      (many (operation (Parser.term inner)) budget >>= fun steps => ending (draft.afterSteps library steps)).run
        state := by
  induction size : state.unread using Nat.strongRecOn generalizing state draft left budget with
  | ind size ih =>
      subst size
      obtain ⟨budget, rfl⟩ := Nat.exists_eq_succ_of_ne_zero (Nat.ne_zero_of_lt enoughMany)
      rcases state.operator_or with ⟨operator, isNext⟩ | noOperator
      · obtain ⟨left, rfl⟩ := Nat.exists_eq_succ_of_ne_zero (Nat.ne_zero_of_lt enoughLeft)
        have fewer := state.unread_advanced isNext
        have above : state.advanced.unread < left := by omega
        have term := (settled _ (by omega)).term (draft.push library (.binary operator)) above
          (Nat.lt_trans fewer enough) above above
        -- the term behind the operator is compared with the chain behind it, which the induction then reads
        rw [run_bind_of_run (run_rest_operator operator isNext), run_bind_of_run term,
          run_bind_of_run (run_many_operator operator isNext)]
        simp only [bind_assoc, pure_bind]
        refine run_bind_congr fun operand after ran => ?_
        have shorter := unread_le_of_term ran
        have standsToo := (stands.push isFloor (.binary operator)).emit isFloor (operand.keepsFloors library)
        have fitsInner : after.unread < inner := by omega
        have fitsMany : after.unread < budget := by omega
        rw [ih after.unread (by omega) (by omega) fitsInner (by omega) fitsMany standsToo rfl]
        simp only [Draft.afterSteps_cons]
      · rw [ends state draft left few enoughLeft noOperator stands, run_bind_ok (run_many_none noOperator),
          Draft.afterSteps_nil]

/-- **A chain** is an expression in front of what ends it. -/
theorem run_chain_then {budget left : Nat} (few : state.unread ≤ most) (enough : state.unread < budget)
    (enoughLeft : state.unread < left) (enoughInner : state.unread < inner) (stands : draft.stack.StandsOn floor) :
    (Barrier.term library budget draft >>= fun first => Barrier.rest library left first >>= next).run state =
      (Parser.expression (Parser.term inner) inner >>= fun expression =>
        ending (draft.afterExpression library expression)).run state := by
  have term := (settled state few).term draft enough enoughInner enoughLeft enoughLeft
  rw [← bind_assoc, run_bind_of_run term, Parser.expression]
  simp only [bind_assoc, pure_bind]
  refine run_bind_congr fun first after ran => ?_
  have shorter := unread_le_of_term ran
  have fits : after.unread < inner := by omega
  rw [run_rest_then isFloor settled ends (by omega) fits (by omega) fits
    (stands.emit isFloor (first.keepsFloors library))]
  simp only [Draft.afterExpression_chain]

end Chains

/-! ### What ends a chain -/

section Ends

variable {draft : Draft} {budget most : Nat} {pending : OperatorStack}

/-- On a floor without a barrier, everything is released at the end. -/
theorem run_rest_bare (enough : state.unread < budget) (noOperator : state.NoOperator)
    (stands : draft.stack.StandsOn []) :
    (Barrier.rest library budget draft).run state = .ok (draft.flush library) state := by
  obtain ⟨budget, rfl⟩ := Nat.exists_eq_succ_of_ne_zero (Nat.ne_zero_of_lt enough)
  have bare : draft.stack.nearestBarrier? = none := stands.nearestBarrier? isFloor_nil
  have finished : (Barrier.finish library draft).run state = .ok (draft.flush library) state := by
    rw [Barrier.finish, bare]
    rfl
  by_cases round : state.cursor.peek? = some (.symbol ')')
  · rw [run_rest_round round, bare]
    exact finished
  by_cases square : state.cursor.peek? = some (.symbol ']')
  · rw [run_rest_square square, bare]
    exact finished
  · rw [run_rest_finish noOperator round square]
    exact finished

/-- **An expression on a stack of its own** may end anywhere, and leaves nothing. -/
theorem endsChain_bare : EndsChain library most [] (fun draft => Barrier.balanced draft >>= fun _ => pure draft.code)
    fun draft => pure (draft.flush library).code := by
  intro state draft budget _ enough noOperator stands
  have empty : (draft.flush library).stack = {} := stands.flush isFloor_nil
  rw [run_bind_ok (run_rest_bare enough noOperator stands), Barrier.balanced, empty]
  rfl

/-- **In parentheses**, the closing one has to follow, and the chain goes on behind it. -/
theorem endsChain_round (settled : ∀ state, state.unread ≤ most → Settled library state) {right : Nat}
    (enoughRight : most ≤ right) : EndsChain library most (pending.enclose .round).entries pure fun draft =>
      expectSymbol ')' >>= fun _ => Barrier.rest library right (draft.close library .round) := by
  intro state draft budget few enough noOperator stands
  obtain ⟨budget, rfl⟩ := Nat.exists_eq_succ_of_ne_zero (Nat.ne_zero_of_lt enough)
  have nearest : draft.stack.nearestBarrier? = some .round := stands.nearestBarrier? (isFloor_enclose pending .round)
  rw [bind_pure]
  by_cases round : state.cursor.peek? = some (.symbol ')')
  · have fewer := state.unread_advanced round
    have eaten : (expectSymbol ')').run state = .ok () state.advanced :=
      run_expectSymbol_of_reads (advance_eq_ok rfl round)
    rw [run_rest_round round, nearest, run_bind_ok eaten]
    exact (settled _ (by omega)).rest _ (by omega) (by omega)
  rw [run_bind_error (run_expectSymbol_of_ne round)]
  by_cases square : state.cursor.peek? = some (.symbol ']')
  · rw [run_rest_square square, nearest]
    rfl
  · rw [run_rest_finish noOperator round square, Barrier.finish, nearest]
    rfl

/-- In the brackets of an index, the chain ends well in front of the closing one.  Elsewhere it is refused, or goes back
to whoever has opened the bracket. -/
theorem run_rest_in_index (enough : state.unread < budget) (noOperator : state.NoOperator)
    (stands : draft.stack.StandsOn (pending.enclose .square).entries) :
    (state.cursor.peek? = some (.symbol ']') ∧
        (Barrier.rest library budget draft).run state = .ok (draft.close library .square) state) ∨
      (state.cursor.peek? ≠ some (.symbol ']') ∧
        ((Barrier.rest library budget draft).run state = .error (.expected (.spelled "]")) state ∨
          (Barrier.rest library budget draft).run state = .ok (draft.flush library) state)) := by
  obtain ⟨budget, rfl⟩ := Nat.exists_eq_succ_of_ne_zero (Nat.ne_zero_of_lt enough)
  have nearest : draft.stack.nearestBarrier? = some .square := stands.nearestBarrier? (isFloor_enclose pending .square)
  by_cases square : state.cursor.peek? = some (.symbol ']')
  · rw [run_rest_square square, nearest]
    exact .inl ⟨square, rfl⟩
  by_cases round : state.cursor.peek? = some (.symbol ')')
  · rw [run_rest_round round, nearest]
    exact .inr ⟨square, .inl rfl⟩
  · rw [run_rest_finish noOperator round square, Barrier.finish, nearest]
    exact .inr ⟨square, .inr rfl⟩

/-- The bracket that closes an index has to follow. -/
theorem run_unclosed {α : Type} {next : Unit → Parser α} (other : state.cursor.peek? ≠ some (.symbol ']')) :
    (expectSymbol ']' >>= next).run state = .error (.expected (.spelled "]")) state :=
  run_bind_error (run_expectSymbol_of_ne other)

/-- **In the brackets of an index**, the closing one has to follow. -/
theorem endsChain_square {α : Type} (next : Draft → Parser α) : EndsChain library most (pending.enclose .square).entries
    (fun index => expectSymbol ']' >>= fun _ => next index)
    fun draft => expectSymbol ']' >>= fun _ => next (draft.close library .square) := by
  intro state draft budget _ enough noOperator stands
  rcases run_rest_in_index enough noOperator stands with ⟨-, closed⟩ | ⟨other, missed | finished⟩
  · rw [run_bind_ok closed]
  · rw [run_bind_error missed, run_unclosed other]
  · rw [run_bind_ok finished, run_unclosed other, run_unclosed other]

/-- …also for an index on a stack of its own, which is found to be closed before that. -/
theorem endsChain_index {α : Type} (next : List Instruction → Parser α) :
    EndsChain library most (({} : OperatorStack).enclose .square).entries
      (fun index => Barrier.balanced index >>= fun _ => expectSymbol ']' >>= fun _ => next index.code)
      fun draft => expectSymbol ']' >>= fun _ => next (draft.close library .square).code := by
  intro state draft budget _ enough noOperator stands
  rcases run_rest_in_index enough noOperator stands with ⟨-, closed⟩ | ⟨other, missed | finished⟩
  · have empty : (draft.close library .square).stack = {} := stands.close
    rw [run_bind_ok closed, Barrier.balanced, empty]
    rfl
  · rw [run_bind_error missed, run_unclosed other]
  · have unclosed : (draft.flush library).stack = ({} : OperatorStack).enclose .square :=
      stands.flush (isFloor_enclose {} .square)
    rw [run_bind_ok finished, Barrier.balanced, unclosed, run_unclosed other]
    rfl

end Ends

/-! ### Arguments -/

section Repetition

variable {α β : Type} {f : β → α} {most : Nat}

/-- Repetitions agree as far as their items do. -/
theorem run_many_map {item? : Parser (Option α)} {other? : Parser (Option β)}
    (same : ∀ state, state.unread ≤ most → item?.run state = (Option.map f <$> other?).run state)
    (shrinks : ∀ before item after, other?.run before = .ok (some item) after → after.unread < before.unread)
    {budget other : Nat} (few : state.unread ≤ most) (enough : state.unread < budget)
    (enoughToo : state.unread < other) :
    (many item? budget).run state = (List.map f <$> many other? other).run state := by
  induction size : state.unread using Nat.strongRecOn generalizing state budget other with
  | ind size ih =>
      subst size
      obtain ⟨budget, rfl⟩ := Nat.exists_eq_succ_of_ne_zero (Nat.ne_zero_of_lt enough)
      obtain ⟨other, rfl⟩ := Nat.exists_eq_succ_of_ne_zero (Nat.ne_zero_of_lt enoughToo)
      rw [many, many, run_bind_of_run (same state few)]
      simp only [map_eq_pure_bind, bind_assoc, pure_bind]
      refine run_bind_congr fun found after ran => ?_
      cases found with
      | none => rfl
      | some item =>
          have fewer := shrinks _ _ _ ran
          have fitsOther : after.unread < other := by omega
          dsimp only [Option.map_some]
          rw [run_bind_of_run (ih after.unread fewer (by omega) (by omega) fitsOther rfl)]
          simp only [map_eq_pure_bind, bind_assoc, pure_bind, List.map_cons]

/-- Arguments agree as far as expressions do. -/
theorem run_arguments_map {item : Parser α} {other : Parser β}
    (same : ∀ state, state.unread ≤ most → item.run state = (f <$> other).run state)
    (keeps : ∀ before item after, other.run before = .ok item after → after.unread ≤ before.unread)
    {budget budgetToo : Nat} (few : state.unread ≤ most) (enough : state.unread < budget)
    (enoughToo : state.unread < budgetToo) :
    (arguments item budget).run state = (List.map f <$> arguments other budgetToo).run state := by
  have comma {before after : State} (ran : (eatSymbol ',').run before = .ok true after) :
      after.unread < before.unread := by
    obtain ⟨-, reads⟩ | ⟨none, -⟩ := eatSymbol_eq_ok ran
    · have length := reads.unread
      rw [List.length_singleton] at length
      omega
    · exact absurd none nofun
  have sameFurther (state : State) (few : state.unread ≤ most) :
      (further item).run state = (Option.map f <$> further other).run state := by
    rw [further, further]
    simp only [map_eq_pure_bind, bind_assoc]
    refine run_bind_congr fun hit after ran => ?_
    cases hit with
    | false => rfl
    | true =>
        have fewer := comma ran
        simp only [if_true, bind_assoc, pure_bind]
        rw [run_bind_of_run (same after (by omega))]
        simp only [map_eq_pure_bind, bind_assoc, pure_bind, Option.map_some]
  have shrinks (before : State) (item : β) (after : State) (ran : (further other).run before = .ok (some item) after) :
      after.unread < before.unread := by
    obtain ⟨between, reads, ranItem⟩ := further_eq_some ran
    have length := reads.unread
    have kept := keeps _ _ _ ranItem
    rw [List.length_singleton] at length
    omega
  rw [arguments, arguments]
  simp only [map_eq_pure_bind, bind_assoc]
  refine run_bind_congr fun closes after ran => ?_
  obtain ⟨-, rfl⟩ := isNext_eq_ok ran
  split
  · rfl
  · rw [commaSeparated, commaSeparated, run_bind_of_run (same _ few)]
    simp only [map_eq_pure_bind, bind_assoc, pure_bind]
    refine run_bind_congr fun first between ranFirst => ?_
    have kept := keeps _ _ _ ranFirst
    have fitsOther : between.unread < budgetToo := by omega
    have others := run_many_map sameFurther shrinks (by omega) (by omega : _ < budget) fitsOther
    simp only [further, map_eq_pure_bind] at others
    rw [run_bind_of_run others]
    simp only [bind_assoc, pure_bind, List.map_cons]

end Repetition

/-! ### Expressions and calls -/

theorem unread_le_of_expression {budget : Nat} {before after : State} {expression : Expression}
    (ran : (Parser.expression (Parser.term budget) budget).run before = .ok expression after) :
    after.unread ≤ before.unread := by
  obtain ⟨written, reads, -, -⟩ :=
    Written.recognizes_expression (Written.recognizes_term budget) budget before expression after ran
  have length := reads.unread
  omega

/-- An expression on a stack of its own. -/
theorem run_whole {most : Nat} (settled : ∀ state, state.unread ≤ most → Settled library state)
    {budget left inner : Nat} (few : state.unread ≤ most) (enough : state.unread < budget)
    (enoughLeft : state.unread < left) (enoughInner : state.unread < inner) :
    (Barrier.whole (fun draft => Barrier.term library budget draft >>= Barrier.rest library left) {}).run state =
      ((·.code library) <$> Parser.expression (Parser.term inner) inner).run state := by
  have start : ({} : Draft).stack.StandsOn [] := ⟨[], rfl⟩
  have inside := run_chain_then isFloor_nil settled endsChain_bare few enough enoughLeft enoughInner start
  rw [Barrier.whole, map_eq_pure_bind]
  simp only [bind_assoc]
  refine inside.trans ?_
  refine run_bind_congr fun expression after _ => ?_
  have code : (({} : Draft).afterExpression library expression |>.flush library).code = expression.code library := by
    simp [Draft.afterExpression, Draft.flush, Draft.release, Expression.code, Expression.passage, Emission.finish]
  rw [code]

/-- A call whose arguments agree. -/
theorem run_call_of_arguments {compiled : Parser (List Instruction)} {inner budget budgetToo : Nat}
    (same : ∀ after, after.unread < state.unread → compiled.run after =
      ((·.code library) <$> Parser.expression (Parser.term inner) inner).run after)
    (enough : state.unread ≤ budget) (enoughToo : state.unread ≤ budgetToo) :
    (Barrier.call compiled budget).run state =
      ((·.code library) <$> Parser.call (Parser.expression (Parser.term inner) inner) budgetToo).run state := by
  rw [Barrier.call, Parser.call, map_eq_pure_bind]
  simp only [bind_assoc]
  refine run_bind_congr fun named between ranCallee => ?_
  obtain ⟨callee, receiver⟩ := named
  refine run_bind_congr fun _ opened ranOpening => ?_
  have fewer : opened.unread < state.unread := by
    obtain ⟨written, reads, -, -⟩ := Written.callee_eq_ok ranCallee
    have length := (reads.trans (expectSymbol_eq_ok ranOpening)).unread
    rw [List.length_append, List.length_singleton] at length
    omega
  have sameBehind (after : State) (few : after.unread ≤ opened.unread) := same after (by omega)
  have agree := run_arguments_map sameBehind (fun _ _ _ ran => unread_le_of_expression ran) (Nat.le_refl _)
    (by omega : _ < budget) (by omega : _ < budgetToo)
  rw [run_bind_of_run agree, map_eq_pure_bind]
  simp only [bind_assoc, pure_bind]
  refine run_bind_congr fun arguments after _ => ?_
  refine run_bind_congr fun _ closed _ => ?_
  have code : receiverCode receiver ++ (arguments.map (·.code library)).flatten ++
      [Instruction.call callee (counted ((arguments.map (·.code library)).length + receiver.toList.length))] =
        (⟨callee, receiver, arguments⟩ : Call).code library := by
    simp [Call.code, Call.passage, callInstruction, List.flatMap_def]
  rw [code]

/-! ### Terms -/

section Terms

variable {draft : Draft} {token : Token} {budget inner left right : Nat}

/-- Neither reader goes on. -/
theorem agrees_of_refused {fault : Fault} (barrier : (Barrier.term library budget draft).run state = .error fault state)
    (tree : (Parser.term inner).run state = .error fault state) :
    AgreesOnTerm library state draft budget inner left right :=
  (run_bind_error barrier).trans (run_bind_error tree).symm

variable (behind : ∀ after, after.unread < state.unread → Settled library after)

include behind

/-- Nothing but a single token stands for the term. -/
theorem agrees_of_token {term : Term} (next : state.cursor.peek? = some token)
    (barrier : (Barrier.term library budget draft).run state = .ok (draft.after library term) state.advanced)
    (tree : (Parser.term inner).run state = .ok term state.advanced)
    (enoughLeft : state.unread < left) (enoughRight : state.unread < right) :
    AgreesOnTerm library state draft budget inner left right := by
  have fewer := state.unread_advanced next
  rw [AgreesOnTerm, run_bind_ok barrier, run_bind_ok tree]
  exact (behind _ fewer).rest _ (by omega) (by omega)

theorem agrees_on_string {content : String} (next : state.cursor.peek? = some (.text content))
    (enoughLeft : state.unread < left) (enoughRight : state.unread < right) :
    AgreesOnTerm library state draft (budget + 1) (inner + 1) left right := by
  have looked := run_peek?_of_next next
  have barrier : (Barrier.term library (budget + 1) draft).run state =
      (stringConstant content >>= fun _ => pure (draft.write (stringCode library content.toList))).run state := by
    rw [Barrier.term, run_bind_ok looked]
  have tree : (Parser.term (inner + 1)).run state = (stringConstant content).run state := by
    rw [Parser.term, run_bind_ok looked]
  rw [AgreesOnTerm, run_bind_of_run barrier, run_bind_of_run tree]
  simp only [bind_assoc, pure_bind]
  refine run_bind_congr fun term after ran => ?_
  obtain ⟨reads, -, rfl⟩ := Written.stringConstant_eq_ok ran next
  have fewer : after.unread < state.unread := by
    have length := reads.unread
    rw [List.length_singleton] at length
    omega
  have written : draft.after library (.string content.toList) = draft.write (stringCode library content.toList) := by
    simp [Draft.after, Draft.write, Term.emit]
  rw [written]
  exact (behind after fewer).rest _ (by omega) (by omega)

theorem agrees_on_unary {operator : UnaryOperator} (next : state.cursor.peek? = some (.symbol operator.symbol))
    (enough : state.unread ≤ budget) (enoughInner : state.unread ≤ inner) (enoughLeft : state.unread < left)
    (enoughRight : state.unread < right) :
    AgreesOnTerm library state draft (budget + 1) (inner + 1) left right := by
  have looked := run_peek?_of_next next
  have barrier : (Barrier.term library (budget + 1) draft).run state =
      (Barrier.term library budget (draft.push library (.unary operator))).run state.advanced := by
    rw [Barrier.term, run_bind_ok looked]
    cases operator <;> rfl
  have tree : (Parser.term (inner + 1)).run state =
      (Parser.term inner >>= fun operand => pure (.unary operator operand)).run state.advanced := by
    rw [Parser.term, run_bind_ok looked]
    cases operator <;> rfl
  have fewer := state.unread_advanced next
  have operand : AgreesOnTerm library state.advanced (draft.push library (.unary operator)) budget inner left right :=
    (behind _ fewer).term _ (by omega) (by omega) (by omega) (by omega)
  rw [AgreesOnTerm, run_bind_of_run barrier, run_bind_of_run tree, operand]
  simp only [bind_assoc, pure_bind, Draft.after_unary]

theorem agrees_on_group (next : state.cursor.peek? = some (.symbol '(')) (enough : state.unread ≤ budget)
    (enoughInner : state.unread ≤ inner) (enoughLeft : state.unread < left) (enoughRight : state.unread < right) :
    AgreesOnTerm library state draft (budget + 1) (inner + 1) left right := by
  have looked := run_peek?_of_next next
  have barrier : (Barrier.term library (budget + 1) draft).run state =
      (Barrier.term library budget (draft.enclose .round)).run state.advanced := by
    rw [Barrier.term, run_bind_ok looked]
    rfl
  have tree : (Parser.term (inner + 1)).run state =
      (Parser.expression (Parser.term inner) inner >>= fun expression => expectSymbol ')' >>= fun _ =>
        pure (.group expression)).run state.advanced := by
    rw [Parser.term, run_bind_ok looked]
    rfl
  have fewer := state.unread_advanced next
  have opened : (draft.enclose .round).stack.StandsOn (draft.stack.enclose .round).entries := ⟨[], rfl⟩
  have settled (after : State) (few : after.unread ≤ state.advanced.unread) : Settled library after :=
    behind after (Nat.lt_of_le_of_lt few fewer)
  have fitsRight : state.advanced.unread ≤ right := by omega
  have inside := run_chain_then (isFloor_enclose draft.stack .round) settled (endsChain_round settled fitsRight)
    (Nat.le_refl _) (by omega : _ < budget) (by omega : _ < left) (by omega : _ < inner) opened
  simp only [bind_pure] at inside
  rw [AgreesOnTerm, run_bind_of_run barrier, run_bind_of_run tree, inside]
  simp only [bind_assoc, pure_bind, Draft.after_group]

theorem agrees_on_element {name : String} (next : state.cursor.peek? = some (.identifier name))
    (bracket : state.cursor.peekAt? 1 = some (.symbol '[')) (enough : state.unread ≤ budget)
    (enoughInner : state.unread ≤ inner) (enoughLeft : state.unread < left) (enoughRight : state.unread < right) :
    AgreesOnTerm library state draft (budget + 1) (inner + 1) left right := by
  have looked := run_peek?_of_next next
  have lookedBehind : (peekAt? 1).run state = .ok (state.cursor.peekAt? 1) state := rfl
  rw [bracket] at lookedBehind
  have barrier : (Barrier.term library (budget + 1) draft).run state = (advance >>= fun _ => place name >>= fun array =>
      Barrier.term library budget ((draft.enclose .square).write [array.push]) >>= fun first =>
        Barrier.rest library budget first >>= fun element => expectSymbol ']' >>= fun _ =>
          pure (element.write loadElement)).run state.advanced := by
    rw [Barrier.term, run_bind_ok looked]
    dsimp only
    rw [run_bind_ok lookedBehind]
    rfl
  have tree : (Parser.term (inner + 1)).run state = (advance >>= fun _ => place name >>= fun array =>
      Parser.expression (Parser.term inner) inner >>= fun index => expectSymbol ']' >>= fun _ =>
        pure (.element array index)).run state.advanced := by
    rw [Parser.term, run_bind_ok looked]
    dsimp only
    rw [run_bind_ok lookedBehind]
    rfl
  have fewer := state.unread_advanced next
  rw [AgreesOnTerm, run_bind_of_run barrier, run_bind_of_run tree]
  simp only [bind_assoc, pure_bind, Draft.after_element]
  refine run_bind_congr fun _ opened ran => ?_
  have shorter : opened.unread ≤ state.advanced.unread := by
    obtain rfl := modify_eq_ok ran
    exact (List.tail_sublist _).length_le
  refine run_bind_congr fun array after found => ?_
  obtain ⟨-, -, -, rfl⟩ := place_eq_ok found
  have within : after.unread < state.unread := Nat.lt_of_le_of_lt shorter fewer
  have start : ((draft.enclose .square).write [array.push]).stack.StandsOn (draft.stack.enclose .square).entries :=
    ⟨[], rfl⟩
  have settled (later : State) (few : later.unread ≤ after.unread) : Settled library later :=
    behind later (Nat.lt_of_le_of_lt few within)
  have inside := run_chain_then (isFloor_enclose draft.stack .square) settled
    (endsChain_square fun element => Barrier.rest library left (element.write loadElement)) (Nat.le_refl _)
    (Nat.lt_of_lt_of_le within enough) (Nat.lt_of_lt_of_le within enough) (Nat.lt_of_lt_of_le within enoughInner) start
  rw [inside]
  refine run_bind_congr fun index read ranIndex => ?_
  refine run_bind_congr fun _ closed ranClosing => ?_
  have kept := unread_le_of_expression ranIndex
  have last : closed.unread ≤ read.unread := by
    have length := (expectSymbol_eq_ok ranClosing).unread
    omega
  exact (behind closed (by omega)).rest _ (by omega) (by omega)

theorem agrees_on_call {name : String} {c : Char} (next : state.cursor.peek? = some (.identifier name))
    (opens : state.cursor.peekAt? 1 = some (.symbol c)) (calls : c = '(' ∨ c = '.') (enough : state.unread ≤ budget)
    (enoughInner : state.unread ≤ inner) (enoughLeft : state.unread < left) (enoughRight : state.unread < right) :
    AgreesOnTerm library state draft (budget + 1) (inner + 1) left right := by
  have looked := run_peek?_of_next next
  have lookedBehind : (peekAt? 1).run state = .ok (state.cursor.peekAt? 1) state := rfl
  rw [opens] at lookedBehind
  have barrier : (Barrier.term library (budget + 1) draft).run state =
      (Barrier.call (Barrier.whole (fun draft => Barrier.term library budget draft >>= Barrier.rest library budget) {})
        budget >>= fun code => pure (draft.write code)).run state := by
    rw [Barrier.term, run_bind_ok looked]
    dsimp only
    rw [run_bind_ok lookedBehind]
    rcases calls with rfl | rfl <;> rfl
  have tree : (Parser.term (inner + 1)).run state =
      (Parser.call (Parser.expression (Parser.term inner) inner) inner >>= fun call => pure call.term).run state := by
    rw [Parser.term, run_bind_ok looked]
    dsimp only
    rw [run_bind_ok lookedBehind]
    rcases calls with rfl | rfl <;> rfl
  -- every argument begins behind the parenthesis, on a stack of its own
  have call := run_call_of_arguments (fun after fewer => run_whole
    (fun later few => behind later (Nat.lt_of_le_of_lt few fewer)) (Nat.le_refl _) (by omega : _ < budget)
    (by omega : _ < budget) (by omega : _ < inner)) enough enoughInner
  rw [AgreesOnTerm, run_bind_of_run barrier, run_bind_of_run tree]
  simp only [bind_assoc, pure_bind, Draft.after_call]
  rw [run_bind_of_run call, map_eq_pure_bind]
  simp only [bind_assoc, pure_bind]
  refine run_bind_congr fun call after ran => ?_
  obtain ⟨written, reads, -, -⟩ :=
    Written.recognizes_call (Written.recognizes_expression (Written.recognizes_term inner) inner) inner _ _ _ ran
  have fewer : after.unread < state.unread := by
    have length := reads.unread
    dsimp only at length
    rw [Written.Term.tokens, List.length_append, List.length_cons] at length
    omega
  exact (behind after fewer).rest _ (by omega) (by omega)

theorem agrees_on_variable {name : String} (next : state.cursor.peek? = some (.identifier name))
    (single : ∀ c ∈ ['[', '(', '.'], state.cursor.peekAt? 1 ≠ some (.symbol c))
    (enoughLeft : state.unread < left) (enoughRight : state.unread < right) :
    AgreesOnTerm library state draft (budget + 1) (inner + 1) left right := by
  have looked := run_peek?_of_next next
  have lookedBehind : (peekAt? 1).run state = .ok (state.cursor.peekAt? 1) state := rfl
  have barrier : (Barrier.term library (budget + 1) draft).run state =
      (place name >>= fun place => pure (draft.write [place.push])).run state.advanced := by
    rw [Barrier.term, run_bind_ok looked]
    dsimp only
    rw [run_bind_ok lookedBehind]
    split
    · exact absurd ‹_› (single _ (by decide))
    · exact absurd ‹_› (single _ (by decide))
    · exact absurd ‹_› (single _ (by decide))
    · rfl
  have tree : (Parser.term (inner + 1)).run state =
      (place name >>= fun place => pure (.variable place)).run state.advanced := by
    rw [Parser.term, run_bind_ok looked]
    dsimp only
    rw [run_bind_ok lookedBehind]
    split
    · exact absurd ‹_› (single _ (by decide))
    · exact absurd ‹_› (single _ (by decide))
    · exact absurd ‹_› (single _ (by decide))
    · rfl
  have fewer := state.unread_advanced next
  rw [AgreesOnTerm, run_bind_of_run barrier, run_bind_of_run tree]
  simp only [bind_assoc, pure_bind]
  refine run_bind_congr fun place after found => ?_
  obtain ⟨-, -, -, rfl⟩ := place_eq_ok found
  have written : draft.after library (.variable place) = draft.write [place.push] := by
    simp [Draft.after, Draft.write, Term.emit]
  rw [written]
  exact (behind _ fewer).rest _ (by omega) (by omega)

/-- The term that a reserved word is, if it is one. -/
def wordTerm? : Keyword → Option Term
  | .true_ => some .true_
  | .false_ => some .false_
  | .null => some .null
  | .this => some .this
  | _ => none

theorem agrees_on_keyword {k : Keyword} (next : state.cursor.peek? = some (.keyword k))
    (enoughLeft : state.unread < left) (enoughRight : state.unread < right) :
    AgreesOnTerm library state draft (budget + 1) (inner + 1) left right := by
  have looked := run_peek?_of_next next
  have barrier : (Barrier.term library (budget + 1) draft).run state =
      (match wordTerm? k with
        | some term => .ok (draft.after library term) state.advanced
        | none => .error (.expected (.described "term")) state) := by
    rw [Barrier.term, run_bind_ok looked]
    cases k <;> rfl
  have tree : (Parser.term (inner + 1)).run state =
      (match wordTerm? k with
        | some term => .ok term state.advanced
        | none => .error (.expected (.described "term")) state) := by
    rw [Parser.term, run_bind_ok looked]
    cases k <;> rfl
  cases word : wordTerm? k with
  | none =>
      rw [word] at barrier tree
      exact agrees_of_refused barrier tree
  | some term =>
      rw [word] at barrier tree
      exact agrees_of_token behind next barrier tree enoughLeft enoughRight

theorem agrees_on_symbol {c : Char} (next : state.cursor.peek? = some (.symbol c))
    (enough : state.unread ≤ budget) (enoughInner : state.unread ≤ inner) (enoughLeft : state.unread < left)
    (enoughRight : state.unread < right) :
    AgreesOnTerm library state draft (budget + 1) (inner + 1) left right := by
  by_cases opens : c = '('
  · subst opens
    exact agrees_on_group behind next enough enoughInner enoughLeft enoughRight
  cases isUnary : UnaryOperator.ofSymbol? c with
  | some operator =>
      rw [← UnaryOperator.symbol_of_ofSymbol? isUnary] at next
      exact agrees_on_unary behind next enough enoughInner enoughLeft enoughRight
  | none =>
      have looked := run_peek?_of_next next
      have barrier : (Barrier.term library (budget + 1) draft).run state =
          .error (.expected (.described "term")) state := by
        rw [Barrier.term, run_bind_ok looked]
        simp only [isUnary]
        rfl
      have tree : (Parser.term (inner + 1)).run state = .error (.expected (.described "term")) state := by
        rw [Parser.term, run_bind_ok looked]
        simp only [isUnary]
        rfl
      exact agrees_of_refused barrier tree

end Terms

/-! ### All states -/

/-- **Every state is settled.** -/
theorem settled (library : Library) (state : State) : Settled library state := by
  induction size : state.unread using Nat.strongRecOn generalizing state with
  | ind size ih =>
      subst size
      have behind (after : State) (fewer : after.unread < state.unread) : Settled library after := ih _ fewer after rfl
      refine ⟨fun draft => Settled.rest_of_behind behind draft, ?_⟩
      intro draft budget inner left right enough enoughInner enoughLeft enoughRight
      obtain ⟨budget, rfl⟩ := Nat.exists_eq_succ_of_ne_zero (Nat.ne_zero_of_lt enough)
      obtain ⟨inner, rfl⟩ := Nat.exists_eq_succ_of_ne_zero (Nat.ne_zero_of_lt enoughInner)
      have fits := Nat.le_of_lt_succ enough
      have fitsInner := Nat.le_of_lt_succ enoughInner
      cases next : state.cursor.peek? with
      | none =>
          have looked := run_peek?_of_next next
          have tree : (Parser.term (inner + 1)).run state = .error (.expected (.described "term")) state := by
            rw [Parser.term, run_bind_ok looked]
            rfl
          exact agrees_of_refused (run_term_end next) tree
      | some token =>
          cases token with
          | integer value =>
              have looked := run_peek?_of_next next
              have barrier : (Barrier.term library (budget + 1) draft).run state =
                  .ok (draft.after library (.integer value)) state.advanced := by
                rw [Barrier.term, run_bind_ok looked]
                rfl
              have tree : (Parser.term (inner + 1)).run state = .ok (.integer value) state.advanced := by
                rw [Parser.term, run_bind_ok looked]
                rfl
              exact agrees_of_token behind next barrier tree enoughLeft enoughRight
          | text content => exact agrees_on_string behind next enoughLeft enoughRight
          | keyword k => exact agrees_on_keyword behind next enoughLeft enoughRight
          | symbol c => exact agrees_on_symbol behind next fits fitsInner enoughLeft enoughRight
          | identifier name =>
              by_cases bracket : state.cursor.peekAt? 1 = some (.symbol '[')
              · exact agrees_on_element behind next bracket fits fitsInner enoughLeft enoughRight
              by_cases opens : state.cursor.peekAt? 1 = some (.symbol '(')
              · exact agrees_on_call behind next opens (.inl rfl) fits fitsInner enoughLeft enoughRight
              by_cases dot : state.cursor.peekAt? 1 = some (.symbol '.')
              · exact agrees_on_call behind next dot (.inr rfl) fits fitsInner enoughLeft enoughRight
              refine agrees_on_variable behind next ?_ enoughLeft enoughRight
              exact List.forall_mem_cons.mpr ⟨bracket, List.forall_mem_cons.mpr ⟨opens,
                List.forall_mem_singleton.mpr dot⟩⟩

variable (library) {budget inner : Nat}

/-- **Expressions.**  The reader with barriers accepts, refuses and reports what the reader of trees does, stops at the
same token, and writes the code of the tree. -/
theorem run_barrier_expression (enough : state.unread < budget) (enoughInner : state.unread < inner) :
    (Barrier.expression library budget).run state =
      ((·.code library) <$> Parser.expression (Parser.term inner) inner).run state :=
  run_whole (fun _ _ => settled library _) (Nat.le_refl _) enough enough enoughInner

/-- **Indices**, read up to the bracket that closes them, whatever is done behind it. -/
theorem run_barrier_index {α : Type} (next : List Instruction → Parser α) (enough : state.unread < budget)
    (enoughInner : state.unread < inner) :
    (do let code ← Barrier.index library budget; expectSymbol ']'; next code : Parser α).run state =
      (do let index ← Parser.expression (Parser.term inner) inner; expectSymbol ']'; next (index.code library) :
        Parser α).run state := by
  have opened : ({ stack := ({} : OperatorStack).enclose .square } : Draft).stack.StandsOn
      (({} : OperatorStack).enclose .square).entries := ⟨[], rfl⟩
  have inside := run_chain_then (isFloor_enclose {} .square) (fun state _ => settled library state)
    (endsChain_index next) (Nat.le_refl _) enough enough enoughInner opened
  rw [Barrier.index, Barrier.whole, Barrier.chain]
  simp only [bind_assoc, pure_bind]
  refine inside.trans (run_bind_congr fun index after _ => ?_)
  rw [code_closed]

/-- **Calls.** -/
theorem run_barrier_call (enough : state.unread ≤ budget) (enoughInner : state.unread ≤ inner) :
    (Barrier.call (Barrier.expression library budget) budget).run state =
      ((·.code library) <$> Parser.call (Parser.expression (Parser.term inner) inner) inner).run state :=
  run_call_of_arguments
    (fun _ fewer => run_barrier_expression library (Nat.lt_of_lt_of_le fewer enough)
      (Nat.lt_of_lt_of_le fewer enoughInner)) enough enoughInner

end Agreement

end JackToolchain.Jack

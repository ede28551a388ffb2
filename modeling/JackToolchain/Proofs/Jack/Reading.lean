import JackToolchain.Jack.Statement.Parser

/-!
# Runs of parsers

What the parsers of single tokens and of repetitions do on tokens that are known.

## Main Definitions

* `State.reading` — a state with other tokens unread.
* `Parser.Items` — the runs of an item parser that make up a repetition.

## Main Statements

* `Parser.run_peek?`, `Parser.run_advance`, `Parser.run_eat_hit`, … — one lemma for each parser of a
  token, in terms of `State.reading`.
* `Parser.run_many` — a repetition reads exactly its items, as long as the budget exceeds their
  number.
-/

namespace JackToolchain.Jack

/-- A state with other tokens unread. -/
def State.reading (state : State) (rest : List Located) : State :=
  { state with cursor := { state.cursor with rest } }

namespace State

variable (state : State) (rest : List Located)

@[simp] theorem reading_rest : (state.reading rest).cursor.rest = rest := rfl

@[simp] theorem reading_table : (state.reading rest).table = state.table := rfl

@[simp] theorem reading_className : (state.reading rest).className = state.className := rfl

/-- A state reads its own unread tokens. -/
theorem reading_self : state.reading state.cursor.rest = state := rfl

end State

namespace Parser

/-! ## Sequences -/

variable {α β : Type} {state after : State}

/-- A parser that succeeds hands its result and its state on. -/
theorem run_bind_ok {first : Parser α} {next : α → Parser β} {result : α}
    (ran : first.run state = .ok result after) :
    (first >>= next).run state = (next result).run after := by
  rw [EStateM.run_bind, ran]

/-- …also through a function. -/
theorem run_map_ok {first : Parser α} {result : α} (f : α → β)
    (ran : first.run state = .ok result after) :
    (f <$> first).run state = .ok (f result) after := by
  rw [map_eq_pure_bind, run_bind_ok ran, EStateM.run_pure]

/-- A sequence fails where its first part does. -/
theorem run_bind_error {first : Parser α} {next : α → Parser β} {fault : Fault}
    {before reached : State} (failed : first.run before = .error fault reached) :
    (first >>= next).run before = .error fault reached := by
  rw [EStateM.run_bind, failed]

/-! ## Single tokens -/

variable (state) {located : Located} {rest : List Located}

theorem run_peek? : peek?.run (state.reading rest) =
    .ok (rest.head?.map (·.token)) (state.reading rest) := rfl

theorem run_peekAt? (distance : Nat) : (peekAt? distance).run (state.reading rest) =
    .ok (rest[distance]?.map (·.token)) (state.reading rest) := rfl

theorem run_advance :
    advance.run (state.reading (located :: rest)) = .ok () (state.reading rest) := rfl

theorem run_isNext (token : Token) : (isNext token).run (state.reading rest) =
    .ok (rest.head?.map (·.token) == some token) (state.reading rest) := rfl

/-- A token that is next is read. -/
theorem run_eat_hit {token : Token} (same : located.token = token) :
    (eat token).run (state.reading (located :: rest)) = .ok true (state.reading rest) := by
  rw [eat, run_bind_ok (run_isNext state token)]
  simp only [List.head?_cons, Option.map_some, same, BEq.rfl, if_true]
  rfl

/-- A token that is not next is left alone. -/
theorem run_eat_miss {token : Token} (other : ∀ located ∈ rest.head?, located.token ≠ token) :
    (eat token).run (state.reading rest) = .ok false (state.reading rest) := by
  have missed : (rest.head?.map (·.token) == some token) = false := by
    cases rest with
    | nil => rfl
    | cons located rest => simpa using other located rfl
  rw [eat, run_bind_ok (run_isNext state token), missed]
  rfl

theorem run_eatSymbol_hit {c : Char} (same : located.token = .symbol c) :
    (eatSymbol c).run (state.reading (located :: rest)) = .ok true (state.reading rest) :=
  run_eat_hit state same

theorem run_eatSymbol_miss {c other : Char} (same : located.token = .symbol other) (different : other ≠ c) :
    (eatSymbol c).run (state.reading (located :: rest)) = .ok false (state.reading (located :: rest)) := by
  refine run_eat_miss state ?_
  rintro _ ⟨⟩ isSymbol
  exact different (Token.symbol.inj (same.symm.trans isSymbol))

theorem run_expectSymbol {c : Char} (same : located.token = .symbol c) :
    (expectSymbol c).run (state.reading (located :: rest)) = .ok () (state.reading rest) := by
  rw [expectSymbol, expect, run_bind_ok (run_eat_hit state same)]
  rfl

theorem run_expectKeyword {k : Keyword} (same : located.token = .keyword k) :
    (expectKeyword k).run (state.reading (located :: rest)) = .ok () (state.reading rest) := by
  rw [expectKeyword, expect, run_bind_ok (run_eat_hit state same)]
  rfl

theorem run_identifier {name : String} (same : located.token = .identifier name) :
    identifier.run (state.reading (located :: rest)) = .ok name (state.reading rest) := by
  rw [identifier, run_bind_ok (run_peek? state)]
  simp only [List.head?_cons, Option.map_some, same]
  rfl

/-! ## Names -/

theorem run_lookup? (name : String) :
    (lookup? name).run state = .ok (state.table.lookup? name) state := rfl

/-- The cell of a declared variable. -/
theorem run_place {name : String} {entry : Symbol.Entry}
    (declared : state.table.lookup? name = some entry) :
    (place name).run state = .ok (.ofEntry entry) state := by
  rw [place, run_bind_ok (run_lookup? state name), declared]
  rfl

/-! ## Repetition -/

/-- **The runs of a repetition**: an item parser returns the items one by one and then none. -/
inductive Items (item? : Parser (Option α)) : List α → State → State → Prop
  | none {before after : State} : item?.run before = .ok none after → Items item? [] before after
  | some {before between after : State} {item : α} {items : List α} :
      item?.run before = .ok (some item) between → Items item? items between after →
        Items item? (item :: items) before after

/-- A budget above the number of items is not used up. -/
theorem run_many {item? : Parser (Option α)} {items : List α} {before after : State}
    (runs : Items item? items before after) {budget : Nat} (enough : items.length < budget) :
    (many item? budget).run before = .ok items after := by
  induction runs generalizing budget with
  | none ran =>
      obtain ⟨budget, rfl⟩ := Nat.exists_eq_succ_of_ne_zero (Nat.ne_zero_of_lt enough)
      rw [many, run_bind_ok ran]
      rfl
  | some ran runs ih =>
      obtain ⟨budget, rfl⟩ := Nat.exists_eq_succ_of_ne_zero (Nat.ne_zero_of_lt enough)
      rw [many, run_bind_ok ran]
      exact run_bind_ok (ih (Nat.lt_of_succ_lt_succ enough))

/-- The items behind the first one of a list with commas. -/
abbrev further (item : Parser α) : Parser (Option α) := do
  if ← eatSymbol ',' then some <$> item else return none

/-- A list with commas between its items. -/
theorem run_commaSeparated {item : Parser α} {first : α} {items : List α}
    {before between after : State} (ran : item.run before = .ok first between)
    (runs : Items (further item) items between after) {budget : Nat}
    (enough : items.length < budget) :
    (commaSeparated item budget).run before = .ok (first :: items) after := by
  rw [commaSeparated, run_bind_ok ran]
  exact run_bind_ok (run_many runs enough)

end Parser

end JackToolchain.Jack

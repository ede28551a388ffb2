import JackToolchain.Proofs.Jack.Reading

/-!
# What parsers have read

What is known about a parser that has succeeded: which tokens stand between the two positions, and
what else it has changed.

## Main Definitions

* `Reads` — exactly the given tokens are read, and nothing but the position changes.
* `State.passing`, `State.declaring`, `State.naming` — states that differ in what a parser may change besides.
* `Parser.Repeated` — the runs of an item parser that a repetition consists of.

## Main Statements

* `Parser.bind_eq_ok`, `Parser.eat_eq_ok`, `Parser.identifier_eq_ok`, … — one lemma for each parser of a
  token, the converses of those in `JackToolchain.Proofs.Jack.Reading`.
* `Parser.repeated_of_many` — a repetition that succeeds has run its item parser again and again,
  however it came to an end.
-/

namespace JackToolchain.Jack

/-- A state in which further label numbers are handed out. -/
def State.passing (state : State) (count : Nat) : State :=
  { state with nextLabel := state.nextLabel + count }

/-- A state with another symbol table. -/
def State.declaring (state : State) (table : Symbol.Table) : State := { state with table }

/-- A state in which another class is being read. -/
def State.naming (state : State) (className : String) : State := { state with className }

/-- **Reading tokens.**  Between two states exactly the given tokens are read, and nothing but the
position changes. -/
structure Reads (before : State) (tokens : List Token) (after : State) : Prop where
  spelled : ∃ front, before.cursor.rest = front ++ after.cursor.rest ∧
    front.map (·.token) = tokens
  moved : after = before.reading after.cursor.rest

namespace State

variable (state : State) (count more : Nat) (table : Symbol.Table) (rest : List Located)

@[simp] theorem passing_table : (state.passing count).table = state.table := rfl

@[simp] theorem passing_className : (state.passing count).className = state.className := rfl

@[simp] theorem passing_nextLabel : (state.passing count).nextLabel = state.nextLabel + count := rfl

@[simp] theorem passing_cursor : (state.passing count).cursor = state.cursor := rfl

@[simp] theorem passing_zero : state.passing 0 = state := rfl

@[simp] theorem passing_passing :
    (state.passing count).passing more = state.passing (count + more) := by
  unfold passing
  simp only [Nat.add_assoc]

@[simp] theorem declaring_table : (state.declaring table).table = table := rfl

@[simp] theorem declaring_className : (state.declaring table).className = state.className := rfl

@[simp] theorem declaring_nextLabel : (state.declaring table).nextLabel = state.nextLabel := rfl

@[simp] theorem declaring_cursor : (state.declaring table).cursor = state.cursor := rfl

@[simp] theorem reading_nextLabel : (state.reading rest).nextLabel = state.nextLabel := rfl

@[simp] theorem declaring_declaring (other : Symbol.Table) :
    (state.declaring other).declaring table = state.declaring table := rfl

theorem declaring_passing :
    (state.passing count).declaring table = (state.declaring table).passing count := rfl

variable (className : String)

@[simp] theorem naming_table : (state.naming className).table = state.table := rfl

@[simp] theorem naming_className : (state.naming className).className = className := rfl

@[simp] theorem naming_nextLabel : (state.naming className).nextLabel = state.nextLabel := rfl

@[simp] theorem naming_cursor : (state.naming className).cursor = state.cursor := rfl

end State

namespace Reads

variable {before between after : State} {front behind tokens : List Token}

theorem refl (state : State) : Reads state [] state where
  spelled := ⟨[], rfl, rfl⟩
  moved := rfl

theorem trans (first : Reads before front between) (second : Reads between behind after) :
    Reads before (front ++ behind) after := by
  obtain ⟨located, same, spelled⟩ := first.spelled
  obtain ⟨further, sameFurther, spelledFurther⟩ := second.spelled
  refine ⟨⟨located ++ further, ?_, ?_⟩, ?_⟩
  · rw [same, sameFurther, List.append_assoc]
  · rw [List.map_append, spelled, spelledFurther]
  · rw [second.moved, first.moved]
    rfl

/-- The symbol table is not changed. -/
theorem table (reads : Reads before tokens after) : after.table = before.table := by
  rw [reads.moved, State.reading_table]

theorem className (reads : Reads before tokens after) : after.className = before.className := by
  rw [reads.moved, State.reading_className]

theorem nextLabel (reads : Reads before tokens after) : after.nextLabel = before.nextLabel := by
  rw [reads.moved, State.reading_nextLabel]

/-- What is read does not depend on the numbers that are handed out,… -/
theorem passing (reads : Reads before tokens after) (count : Nat) :
    Reads (before.passing count) tokens (after.passing count) where
  spelled := reads.spelled
  moved := by
    rw [reads.moved]
    rfl

/-- …on the symbol table… -/
theorem declaring (reads : Reads before tokens after) (table : Symbol.Table) :
    Reads (before.declaring table) tokens (after.declaring table) where
  spelled := reads.spelled
  moved := by
    rw [reads.moved]
    rfl

/-- …or on the class. -/
theorem naming (reads : Reads before tokens after) (className : String) :
    Reads (before.naming className) tokens (after.naming className) where
  spelled := reads.spelled
  moved := by
    rw [reads.moved]
    rfl

/-- When everything is read, the tokens are those that were unread. -/
theorem all (reads : Reads before tokens after) (atEnd : after.cursor.atEnd = true) :
    before.cursor.rest.map (·.token) = tokens := by
  obtain ⟨front, unread, spelled⟩ := reads.spelled
  have nothing : after.cursor.rest = [] := List.isEmpty_iff.mp atEnd
  rw [unread, nothing, List.append_nil, spelled]

end Reads

namespace Parser

/-! ## Sequences -/

section Sequences

variable {α β : Type} {before after : State}

/-- A sequence that succeeds has succeeded in both parts. -/
theorem bind_eq_ok {first : Parser α} {next : α → Parser β} {result : β}
    (ran : (first >>= next).run before = .ok result after) :
    ∃ middle between, first.run before = .ok middle between ∧
      (next middle).run between = .ok result after := by
  rw [EStateM.run_bind] at ran
  cases inFront : first.run before with
  | error fault reached =>
      rw [inFront] at ran
      exact absurd ran (by simp)
  | ok middle between =>
      rw [inFront] at ran
      exact ⟨middle, between, rfl, ran⟩

/-- …and so has what is only changed afterwards. -/
theorem map_eq_ok {parser : Parser α} {f : α → β} {result : β}
    (ran : (f <$> parser).run before = .ok result after) :
    ∃ value, parser.run before = .ok value after ∧ f value = result := by
  rw [map_eq_pure_bind] at ran
  obtain ⟨value, between, inFront, rest⟩ := bind_eq_ok ran
  rw [EStateM.run_pure] at rest
  obtain ⟨rfl, rfl⟩ := EStateM.Result.ok.inj rest
  exact ⟨value, inFront, rfl⟩

theorem pure_eq_ok {value result : α} (ran : (pure value : Parser α).run before = .ok result after) :
    result = value ∧ after = before := by
  rw [EStateM.run_pure] at ran
  obtain ⟨rfl, rfl⟩ := EStateM.Result.ok.inj ran
  exact ⟨rfl, rfl⟩

/-- A fault is no success. -/
theorem throw_ne_ok {fault : Fault} {result : α}
    (ran : (throw fault : Parser α).run before = .ok result after) : False := by
  have failed : (throw fault : Parser α).run before = .error fault before := rfl
  rw [failed] at ran
  cases ran

theorem stop_ne_ok {what : Expected} {result : α}
    (ran : (stop what : Parser α).run before = .ok result after) : False := by
  rw [stop] at ran
  exact throw_ne_ok ran

end Sequences

/-! ## Single tokens -/

section Tokens

variable {before after : State} {token : Token}

theorem peek?_eq_ok {found : Option Token} (ran : peek?.run before = .ok found after) :
    found = before.cursor.peek? ∧ after = before := by
  obtain ⟨rfl, rfl⟩ := EStateM.Result.ok.inj ran
  exact ⟨rfl, rfl⟩

theorem peekAt?_eq_ok {distance : Nat} {found : Option Token}
    (ran : (peekAt? distance).run before = .ok found after) :
    found = before.cursor.peekAt? distance ∧ after = before := by
  obtain ⟨rfl, rfl⟩ := EStateM.Result.ok.inj ran
  exact ⟨rfl, rfl⟩

theorem isNext_eq_ok {found : Bool} (ran : (isNext token).run before = .ok found after) :
    found = (before.cursor.peek? == some token) ∧ after = before := by
  obtain ⟨rfl, rfl⟩ := EStateM.Result.ok.inj ran
  exact ⟨rfl, rfl⟩

theorem lookup?_eq_ok {name : String} {found : Option Symbol.Entry}
    (ran : (lookup? name).run before = .ok found after) :
    found = before.table.lookup? name ∧ after = before := by
  obtain ⟨rfl, rfl⟩ := EStateM.Result.ok.inj ran
  exact ⟨rfl, rfl⟩

theorem get_eq_ok {state : State} (ran : (get : Parser State).run before = .ok state after) :
    state = before ∧ after = before := by
  obtain ⟨rfl, rfl⟩ := EStateM.Result.ok.inj ran
  exact ⟨rfl, rfl⟩

theorem modify_eq_ok {change : State → State} {result : PUnit}
    (ran : (modify change : Parser PUnit).run before = .ok result after) : after = change before :=
  (EStateM.Result.ok.inj ran).2.symm

/-- A number is taken. -/
theorem freshLabel_eq_ok {number : Nat} (ran : freshLabel.run before = .ok number after) :
    number = before.nextLabel ∧ after = before.passing 1 := by
  obtain ⟨rfl, rfl⟩ := EStateM.Result.ok.inj ran
  exact ⟨rfl, rfl⟩

theorem define_eq_ok {name type : String} {kind : Symbol.Kind} {result : Unit}
    (ran : (define name type kind).run before = .ok result after) :
    after = before.declaring (before.table.define name type kind) :=
  modify_eq_ok ran

/-- The token that is next is read. -/
theorem advance_eq_ok {result : Unit} (ran : advance.run before = .ok result after)
    (found : before.cursor.peek? = some token) : Reads before [token] after := by
  obtain rfl := modify_eq_ok ran
  obtain ⟨located, atHead, same⟩ := Option.map_eq_some_iff.mp found
  obtain ⟨rest, unread⟩ := List.head?_eq_some_iff.mp atHead
  refine ⟨⟨[located], ?_, ?_⟩, rfl⟩
  · show before.cursor.rest = [located] ++ before.cursor.rest.tail
    rw [unread]
    rfl
  · rw [List.map_singleton, same]

/-- A token is read if it is next, and nothing otherwise. -/
theorem eat_eq_ok {hit : Bool} (ran : (eat token).run before = .ok hit after) :
    (hit = true ∧ Reads before [token] after) ∨ (hit = false ∧ after = before) := by
  obtain ⟨next, between, looked, ran⟩ := bind_eq_ok ran
  obtain ⟨rfl, rfl⟩ := isNext_eq_ok looked
  split at ran
  · rename_i isNext
    obtain ⟨result, between, advanced, ran⟩ := bind_eq_ok ran
    obtain ⟨rfl, rfl⟩ := pure_eq_ok ran
    exact .inl ⟨rfl, advance_eq_ok advanced (eq_of_beq isNext)⟩
  · obtain ⟨rfl, rfl⟩ := pure_eq_ok ran
    exact .inr ⟨rfl, rfl⟩

theorem expect_eq_ok {spelling : String} {result : Unit}
    (ran : (expect token spelling).run before = .ok result after) : Reads before [token] after := by
  obtain ⟨hit, between, eaten, ran⟩ := bind_eq_ok ran
  rcases eat_eq_ok eaten with ⟨rfl, reads⟩ | ⟨rfl, -⟩
  · obtain ⟨-, rfl⟩ := pure_eq_ok ran
    exact reads
  · exact (stop_ne_ok ran).elim

theorem eatSymbol_eq_ok {c : Char} {hit : Bool} (ran : (eatSymbol c).run before = .ok hit after) :
    (hit = true ∧ Reads before [.symbol c] after) ∨ (hit = false ∧ after = before) :=
  eat_eq_ok ran

theorem eatKeyword_eq_ok {k : Keyword} {hit : Bool}
    (ran : (eatKeyword k).run before = .ok hit after) :
    (hit = true ∧ Reads before [.keyword k] after) ∨ (hit = false ∧ after = before) :=
  eat_eq_ok ran

theorem expectSymbol_eq_ok {c : Char} {result : Unit}
    (ran : (expectSymbol c).run before = .ok result after) : Reads before [.symbol c] after :=
  expect_eq_ok ran

theorem expectKeyword_eq_ok {k : Keyword} {result : Unit}
    (ran : (expectKeyword k).run before = .ok result after) : Reads before [.keyword k] after :=
  expect_eq_ok ran

theorem identifier_eq_ok {name : String} (ran : identifier.run before = .ok name after) :
    Reads before [.identifier name] after := by
  obtain ⟨found, between, looked, ran⟩ := bind_eq_ok ran
  obtain ⟨rfl, rfl⟩ := peek?_eq_ok looked
  split at ran
  · rename_i name' found
    obtain ⟨result, between, advanced, ran⟩ := bind_eq_ok ran
    obtain ⟨rfl, rfl⟩ := pure_eq_ok ran
    exact advance_eq_ok advanced found
  · exact (stop_ne_ok ran).elim

/-- A type is one token. -/
theorem typeName_eq_ok {allowVoid : Bool} {type : String}
    (ran : (typeName allowVoid).run before = .ok type after) :
    ∃ token, typeOf? allowVoid token = some type ∧ Reads before [token] after := by
  obtain ⟨found, between, looked, ran⟩ := bind_eq_ok ran
  obtain ⟨rfl, rfl⟩ := peek?_eq_ok looked
  split at ran
  · rename_i type' isType
    obtain ⟨result, between, advanced, ran⟩ := bind_eq_ok ran
    obtain ⟨rfl, rfl⟩ := pure_eq_ok ran
    obtain ⟨token, found, isType⟩ := Option.bind_eq_some_iff.mp isType
    exact ⟨token, isType, advance_eq_ok advanced found⟩
  · exact (stop_ne_ok ran).elim

/-- A variable that has a cell is declared. -/
theorem place_eq_ok {name : String} {place : Place}
    (ran : (Parser.place name).run before = .ok place after) :
    ∃ entry, before.table.lookup? name = some entry ∧ place = .ofEntry entry ∧ after = before := by
  obtain ⟨found, between, looked, ran⟩ := bind_eq_ok ran
  obtain ⟨rfl, rfl⟩ := lookup?_eq_ok looked
  split at ran
  · rename_i entry found
    obtain ⟨rfl, rfl⟩ := pure_eq_ok ran
    exact ⟨entry, found, rfl, rfl⟩
  · exact (throw_ne_ok ran).elim

end Tokens

/-! ## Repetition -/

section Repetition

variable {α : Type} {item? : Parser (Option α)}

/-- **The runs of a repetition** that may have come to an end because no item followed or because its
budget was used up. -/
inductive Repeated (item? : Parser (Option α)) : List α → State → State → Prop
  | nil (state : State) : Repeated item? [] state state
  | cons {before between after : State} {item : α} {items : List α} :
      item?.run before = .ok (some item) between → Repeated item? items between after →
        Repeated item? (item :: items) before after

/-- A repetition that succeeds has read its items one by one. -/
theorem repeated_of_many {budget : Nat} {items : List α} {before after : State}
    (untouched : ∀ before after, item?.run before = .ok none after → after = before)
    (ran : (many item? budget).run before = .ok items after) :
    Repeated item? items before after := by
  induction budget generalizing before items with
  | zero =>
      obtain ⟨rfl, rfl⟩ := pure_eq_ok ran
      exact .nil _
  | succ budget ih =>
      obtain ⟨found, between, ranItem, ran⟩ := bind_eq_ok ran
      split at ran
      · obtain ⟨others, between', ranOthers, ran⟩ := bind_eq_ok ran
        obtain ⟨rfl, rfl⟩ := pure_eq_ok ran
        exact .cons ranItem (ih ranOthers)
      · obtain ⟨rfl, rfl⟩ := pure_eq_ok ran
        rw [untouched _ _ ranItem]
        exact .nil _

/-- Where no comma follows, nothing is read. -/
theorem further_eq_none {item : Parser α} {before after : State}
    (ran : (further item).run before = .ok none after) : after = before := by
  obtain ⟨hit, between, eaten, ranBehind⟩ := bind_eq_ok ran
  rcases eatSymbol_eq_ok eaten with ⟨rfl, -⟩ | ⟨rfl, rfl⟩
  · obtain ⟨value, -, same⟩ := map_eq_ok ranBehind
    exact absurd same (Option.some_ne_none value)
  · exact (pure_eq_ok ranBehind).2

/-- An item behind the first one has a comma in front. -/
theorem further_eq_some {item : Parser α} {value : α} {before after : State}
    (ran : (further item).run before = .ok (some value) after) :
    ∃ between, Reads before [.symbol ','] between ∧ item.run between = .ok value after := by
  obtain ⟨hit, between, eaten, ran⟩ := bind_eq_ok ran
  rcases eatSymbol_eq_ok eaten with ⟨rfl, reads⟩ | ⟨rfl, -⟩
  · obtain ⟨value', ranItem, same⟩ := map_eq_ok ran
    obtain rfl := Option.some.inj same
    exact ⟨between, reads, ranItem⟩
  · exact absurd (pure_eq_ok ran).1 (Option.some_ne_none value)

end Repetition

end Parser

end JackToolchain.Jack

import JackToolchain.Proofs.Jack.Consumption

/-!
# Positions

What is read between two positions, taken apart, and the runs that are known from it.

## Main Statements

* `Reads.split` — the position between two parts of what is read.
* `Reads.length` — what is read is unread no more.
* `Parser.run_advance_of_reads`, `Parser.run_eat_of_reads`, … — one lemma for each parser of a token: where the token is
  read between two positions, the parser leads from one to the other.
-/

namespace JackToolchain.Jack

/-! ## Reading in parts -/

namespace Reads

variable {before between after : State} {front behind tokens : List Token} {token : Token}

/-- **Between two parts** of what is read there is a position. -/
theorem split (reads : Reads before (front ++ behind) after) :
    ∃ between, Reads before front between ∧ Reads between behind after := by
  obtain ⟨located, unread, spelled⟩ := reads.spelled
  obtain ⟨first, second, rfl, spelledFirst, spelledSecond⟩ := List.map_eq_append_iff.mp spelled
  rw [List.append_assoc] at unread
  refine ⟨before.reading (second ++ after.cursor.rest), ⟨⟨first, unread, spelledFirst⟩, rfl⟩,
    ⟨⟨second, rfl, spelledSecond⟩, ?_⟩⟩
  rw [reads.moved]
  rfl

/-- …in particular behind the first token. -/
theorem split_cons (reads : Reads before (token :: behind) after) :
    ∃ between, Reads before [token] between ∧ Reads between behind after := by
  have parted : Reads before ([token] ++ behind) after := reads
  exact parted.split

/-- Where nothing is read, nothing changes. -/
theorem eq_of_nil (reads : Reads before [] after) : after = before := by
  obtain ⟨located, unread, spelled⟩ := reads.spelled
  obtain rfl := List.map_eq_nil_iff.mp spelled
  rw [reads.moved, ← List.nil_append after.cursor.rest, ← unread]
  rfl

/-- The first of the tokens is next. -/
theorem peek? (reads : Reads before (token :: behind) after) : before.cursor.peek? = some token := by
  obtain ⟨located, unread, spelled⟩ := reads.spelled
  obtain ⟨first, others, rfl, same, -⟩ := List.map_eq_cons_iff.mp spelled
  rw [Cursor.peek?, unread, List.cons_append, List.head?_cons, Option.map_some, same]

/-- What is read is unread no more. -/
theorem length (reads : Reads before tokens after) :
    before.cursor.rest.length = tokens.length + after.cursor.rest.length := by
  obtain ⟨located, unread, spelled⟩ := reads.spelled
  rw [unread, List.length_append, ← spelled, List.length_map]

/-- The states between which the tokens are read, as states that differ in the unread tokens. -/
theorem asReading (reads : Reads before tokens after) :
    ∃ located, located.map (·.token) = tokens ∧
      before = before.reading (located ++ after.cursor.rest) ∧
      after = before.reading after.cursor.rest := by
  obtain ⟨located, unread, spelled⟩ := reads.spelled
  refine ⟨located, spelled, ?_, reads.moved⟩
  rw [← unread, State.reading_self]

/-- …if it is known what is read next. -/
theorem asReading_before (reads : Reads before tokens after) (next : after.cursor.peek? = some token) :
    ∃ located following rest, located.map (·.token) = tokens ∧ following.token = token ∧
      before = before.reading (located ++ following :: rest) ∧ after = before.reading (following :: rest) := by
  obtain ⟨located, spelled, same, moved⟩ := reads.asReading
  obtain ⟨following, member, isToken⟩ := Option.map_eq_some_iff.mp next
  obtain ⟨rest, unread⟩ := List.head?_eq_some_iff.mp member
  exact ⟨located, following, rest, spelled, isToken, unread ▸ same, unread ▸ moved⟩

end Reads

/-! ## Single tokens -/

namespace Parser

section Tokens

variable {before after : State} {c : Char} {k : Keyword} {token : Token}

theorem run_advance_of_reads (reads : Reads before [token] after) :
    advance.run before = .ok () after := by
  obtain ⟨located, spelled, same, moved⟩ := reads.asReading
  obtain ⟨first, rfl, -⟩ := List.map_eq_singleton_iff.mp spelled
  rw [same, moved]
  exact run_advance before

theorem run_eat_of_reads (reads : Reads before [token] after) :
    (eat token).run before = .ok true after := by
  obtain ⟨located, spelled, same, moved⟩ := reads.asReading
  obtain ⟨first, rfl, spelledFirst⟩ := List.map_eq_singleton_iff.mp spelled
  rw [same, moved]
  exact run_eat_hit before spelledFirst

theorem run_eat_of_ne (other : before.cursor.peek? ≠ some token) :
    (eat token).run before = .ok false before := by
  rw [← State.reading_self before]
  refine run_eat_miss before fun located member same => other ?_
  rw [Cursor.peek?, member, Option.map_some, same]

theorem run_expect_of_reads {spelling : String} (reads : Reads before [token] after) :
    (expect token spelling).run before = .ok () after := by
  rw [expect, run_bind_ok (run_eat_of_reads reads)]
  rfl

theorem run_expectSymbol_of_reads (reads : Reads before [.symbol c] after) :
    (expectSymbol c).run before = .ok () after :=
  run_expect_of_reads reads

/-- A symbol that must follow and does not. -/
theorem run_expectSymbol_of_ne (other : before.cursor.peek? ≠ some (.symbol c)) :
    (expectSymbol c).run before = .error (.expected (.spelled c.toString)) before := by
  rw [expectSymbol, expect, run_bind_ok (run_eat_of_ne other)]
  rfl

theorem run_expectKeyword_of_reads (reads : Reads before [.keyword k] after) :
    (expectKeyword k).run before = .ok () after :=
  run_expect_of_reads reads

theorem run_identifier_of_reads {name : String} (reads : Reads before [.identifier name] after) :
    identifier.run before = .ok name after := by
  obtain ⟨located, spelled, same, moved⟩ := reads.asReading
  obtain ⟨first, rfl, spelledFirst⟩ := List.map_eq_singleton_iff.mp spelled
  rw [same, moved]
  exact run_identifier before spelledFirst

theorem run_typeName_of_reads {allowVoid : Bool} {type : String}
    (isType : typeOf? allowVoid token = some type) (reads : Reads before [token] after) :
    (typeName allowVoid).run before = .ok type after := by
  have looked : peek?.run before = .ok (some token) before := by
    rw [← reads.peek?]
    rfl
  rw [typeName, run_bind_ok looked, Option.bind_some, isType]
  exact run_bind_ok (run_advance_of_reads reads)

theorem run_isNext_iff (before : State) (token : Token) :
    (isNext token).run before = .ok (before.cursor.peek? == some token) before := rfl

end Tokens

end Parser

end JackToolchain.Jack

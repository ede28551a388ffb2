import JackToolchain.Jack.Session
import JackToolchain.Proofs.Jack.ClassReading
import JackToolchain.Proofs.Jack.ClassResiduals
import JackToolchain.Proofs.Token.Spelling

/-!
# Syntax errors

A syntax error points at the first token that no class can have in its place.

## Main Definitions

* `IsFirstOffence` — where the tokens of a text cease to be the beginning of a class.
* `PointsAt` — the line and the token that an error shows belong to a position.

## Main Statements

* `IsFirstOffence.unique` — there is at most one such position.
* `syntax_errors_located` — every syntax error points there, if local variables are read on from.
* `subroutine_stops_behind_locals`, `var_behind_long_line_reported` — behind as many names as a counter shows none of,
  the next declaration is reported, although a class can have it there.

## Design Notes

A text is offended at a token if no class begins with what stands up to and including that token, whatever
might stand behind it; the part in front of that token is the beginning of a class whose other tokens can all
be written down.  Nothing is said about what is reported as expected, which is one of several possibilities,
nor about names that are not declared, which may be found in front of the first offence or not at all.
-/

namespace JackToolchain.Jack

open JackToolchain.Jack.Written

/-- **The first offence.**  What stands in front is the beginning of a class, and together with the next token
it is not; where nothing follows, it is not the whole of a class. -/
structure IsFirstOffence (tokens consumed rest : List Located) : Prop where
  parted : tokens = consumed ++ rest
  viable : ∃ (cls : Written.Class) (more : List Token), (∀ token ∈ more, token.IsProper) ∧
    cls.tokens = consumed.map (·.token) ++ more
  offends : ∀ next others, rest = next :: others → ∀ (cls : Written.Class) (more : List Token),
    cls.tokens ≠ consumed.map (·.token) ++ next.token :: more
  incomplete : rest = [] → ∀ cls : Written.Class, cls.tokens ≠ tokens.map (·.token)

/-- **Pointing.**  The line and the token that are shown are those of the next token, or the line of the last
token and the end of the input where nothing follows. -/
def PointsAt (tokens : List Located) (line : Nat) (found : Option Token) : List Located → Prop
  | next :: _ => line = next.line ∧ found = some next.token ∧ describeFound found = next.token.describe
  | [] => line = (tokens.getLast?.map (·.line)).getD 0 ∧ found = none ∧ describeFound found = "end of input"

namespace IsFirstOffence

variable {tokens consumed rest others behind : List Located}

/-- Nothing that begins with more tokens is the beginning of a class. -/
theorem not_shorter {next : Located} {more : List Located} (offence : IsFirstOffence tokens consumed rest)
    (other : IsFirstOffence tokens (consumed ++ next :: more) behind) : False := by
  obtain ⟨cls, completion, -, spelled⟩ := other.viable
  have same : rest = next :: (more ++ behind) := by
    have parted := offence.parted.symm.trans other.parted
    rw [List.append_assoc] at parted
    exact List.append_cancel_left parted
  refine offence.offends _ _ same cls (more.map (·.token) ++ completion) ?_
  rw [spelled, List.map_append, List.append_assoc, List.map_cons]
  rfl

/-- **The first offence of a text is one position**, whatever has found it. -/
theorem unique (offence : IsFirstOffence tokens consumed rest)
    (other : IsFirstOffence tokens others behind) : others = consumed := by
  have parted := offence.parted.symm.trans other.parted
  rcases List.append_eq_append_iff.mp parted with ⟨more, same, -⟩ | ⟨more, same, -⟩
  · cases more with
    | nil => rw [same, List.append_nil]
    | cons next more => exact (offence.not_shorter (same ▸ other)).elim
  · cases more with
    | nil => rw [same, List.append_nil]
    | cons next more => exact (other.not_shorter (same ▸ offence)).elim

end IsFirstOffence

namespace Session

variable {session : Session} {tokens : List Located} {line : Nat} {expected : Expected}
  {found : Option Token}

/-- A syntax error is reported where the parser of classes has stopped. -/
theorem stopped_of_unexpected
    (failed : (session.compileTokens tokens).1 = .error (.unexpected line expected found)) :
    ∃ reached, (Parser.class_ (readingBudget tokens)).run (.ofTokens tokens session.nextLabel) =
        .error (.expected expected) reached ∧
      line = reached.cursor.line ∧ found = reached.cursor.peek? := by
  unfold compileTokens at failed
  split at failed
  · cases failed
  · rename_i fault reached stopped
    cases fault with
    | expected what =>
        obtain ⟨rfl, rfl, rfl⟩ := Error.unexpected.inj (Except.error.inj failed)
        exact ⟨reached, stopped, rfl, rfl⟩
    | _ => cases failed

/-- The position that is reported is the one that is reached. -/
theorem pointsAt_of_passes {before reached : State} {read : List Token}
    (begun : before.cursor = .ofTokens tokens) (passes : Passes before read reached) :
    PointsAt tokens reached.cursor.line reached.cursor.peek? reached.cursor.rest := by
  have lastLine : reached.cursor.lastLine = (tokens.getLast?.map (·.line)).getD 0 := by
    rw [← passes.lastLine, begun]
    rfl
  rw [Cursor.line, Cursor.peek?, lastLine]
  cases reached.cursor.rest with
  | nil => exact ⟨rfl, rfl, rfl⟩
  | cons next others => exact ⟨rfl, rfl, rfl⟩

/-- A text in which a comma is missing on its second line,… -/
private def commaMissing : String := "class A \x7b\n  field int x y;\n\x7d"

/-- …and its tokens. -/
private def commaMissingTokens : List Located :=
  [⟨.keyword .class_, 1⟩, ⟨.identifier "A", 1⟩, ⟨.symbol '{', 1⟩, ⟨.keyword .field, 2⟩,
    ⟨.keyword .int, 2⟩, ⟨.identifier "x", 2⟩, ⟨.identifier "y", 2⟩, ⟨.symbol ';', 2⟩, ⟨.symbol '}', 3⟩]

end Session

section Stops

open JackToolchain.Jack.Parser

variable {before after : State} {budget : Nat}

/-- **Behind a declaration counted as one of no names** another one is refused: a statement or the end of the
subroutine is expected there. -/
theorem subroutine_stops_behind_locals (written : Written.Subroutine) (readsOn : written.ReadsOn)
    (ended : ∃ last ∈ written.locals.getLast?, counted last.names.length = 0)
    (reads : Reads before written.heading after) (next : after.cursor.peek? = some (.keyword .var))
    (enough : before.cursor.rest.length < budget) :
    ∃ reached, (Parser.subroutine budget).run before = .error (.expected (.spelled "\x7d")) reached ∧
      reached.cursor = after.cursor := by
  obtain ⟨last, isLast, noNames⟩ := ended
  let entered := after.declaring (written.table before.className before.table)
  have seen : entered.cursor.peek? = some (.keyword .var) := next
  have noStatement : (statements budget).run entered = .ok [] entered := by
    obtain ⟨budget, rfl⟩ := Nat.exists_eq_succ_of_ne_zero (Nat.ne_zero_of_lt enough)
    have absent : (Parser.statement (budget + 1)).run entered = .ok none entered :=
      run_statement_of_word seen
    exact run_many (.none absent) (Nat.succ_pos budget)
  have noBrace : (expectSymbol '}').run entered = .error (.expected (.spelled "\x7d")) entered := by
    refine run_expectSymbol_of_ne ?_
    rw [seen]
    exact nofun
  refine ⟨entered, ?_, rfl⟩
  rw [run_subroutine_of_heading written reads readsOn (fun counts => absurd noNames (counts last isLast)) enough,
    map_eq_pure_bind]
  refine run_bind_error ?_
  rw [run_bind_ok noStatement]
  exact run_bind_error noBrace

/-- The same in the first subroutine of a class. -/
theorem class_stops_behind_locals {name : String} (written : Written.Subroutine) (readsOn : written.ReadsOn)
    (ended : ∃ last ∈ written.locals.getLast?, counted last.names.length = 0)
    (reads : Reads before ([Token.keyword .class_, .identifier name, .symbol '{'] ++ written.heading) after)
    (next : after.cursor.peek? = some (.keyword .var)) (enough : before.cursor.rest.length < budget) :
    ∃ reached, (class_ budget).run before = .error (.expected (.spelled "\x7d")) reached ∧
      reached.cursor = after.cursor := by
  obtain ⟨begun, word, reads⟩ := reads.split_cons
  obtain ⟨named, isName, reads⟩ := reads.split_cons
  obtain ⟨opened, opening, heading⟩ := reads.split_cons
  have header := word.trans (isName.trans opening)
  have fewer : opened.cursor.rest.length < budget := by
    rw [header.length] at enough
    omega
  obtain ⟨budget, rfl⟩ := Nat.exists_eq_succ_of_ne_zero (Nat.ne_zero_of_lt enough)
  have noVariables {k : Keyword} (other : kindKeyword written.kind ≠ k) :
      (opened.naming name).cursor.peek? ≠ some (.keyword k) := by
    have first : opened.cursor.peek? = some (.keyword (kindKeyword written.kind)) := heading.peek?
    rw [State.naming_cursor, first]
    rintro ⟨⟩
    exact other rfl
  have ranVariables : (many (classVariables (budget + 1)) (budget + 1)).run (opened.naming name) =
      .ok [] (opened.naming name) := by
    refine run_many (.none (run_classVariables_none (noVariables ?_) (noVariables ?_))) (Nat.succ_pos _)
    · cases written.kind <;> decide
    · cases written.kind <;> decide
  obtain ⟨reached, stopped, same⟩ := subroutine_stops_behind_locals written readsOn ended
    (heading.naming name) next fewer
  refine ⟨reached, ?_, same⟩
  rw [class_, run_bind_ok (run_expectKeyword_of_reads word), run_bind_ok (run_identifier_of_reads isName)]
  show (do
      expectSymbol '{'
      let _ ← many (classVariables (budget + 1)) (budget + 1)
      let fields := (← get).table.count .field
      let subroutines ← many (Parser.subroutine (budget + 1)) (budget + 1)
      expectSymbol '}'
      unless (← get).cursor.atEnd do stop (.described "end of input")
      return ⟨name, fields, subroutines⟩ : Parser Jack.Class).run (named.naming name) = _
  rw [run_bind_ok (run_expectSymbol_of_reads (opening.naming name)), run_bind_ok ranVariables]
  show (do
      let subroutines ← many (Parser.subroutine (budget + 1)) (budget + 1)
      expectSymbol '}'
      unless (← get).cursor.atEnd do stop (.described "end of input")
      return ⟨name, opened.table.count .field, subroutines⟩ : Parser Jack.Class).run
        (opened.naming name) = _
  refine run_bind_error ?_
  rw [many]
  exact run_bind_error stopped

end Stops

section LongLine

variable (more : List String)

/-- A function with a line of local variables,… -/
private def longLine : Written.Subroutine where
  kind := .function
  returns := none
  name := "f"
  parameters := []
  locals := [⟨.int, "a", more⟩]
  body := []

/-- …how a class begins with it,… -/
private def longFront : List Token :=
  [Token.keyword .class_, .identifier "M", .symbol '{'] ++ (longLine more).heading

/-- …another line behind it, of which the semicolon is missing,… -/
private def shortLine : List Token :=
  [.keyword .var, .keyword .int, .identifier "b", .keyword .return_, .symbol ';', .symbol '}', .symbol '}']

/-- …and a class with both lines, in which nothing is missing. -/
private def twoLines : Written.Class where
  name := "M"
  shared := []
  subroutines := [{ longLine more with
    locals := [⟨.int, "a", more⟩, ⟨.int, "b", []⟩]
    body := [.leave none] }]

private theorem tokens_twoLines : (twoLines more).tokens = longFront more ++
    Token.keyword .var :: [.keyword .int, .identifier "b", .symbol ';', .keyword .return_, .symbol ';', .symbol '}',
      .symbol '}'] := by
  simp [twoLines, longFront, longLine, Written.Class.tokens, Written.Subroutine.tokens,
    Written.Subroutine.heading, Variables.tokens, TypeName.token, statementTokens, Statement.tokens,
    resultTokens]

private theorem proper_longFront (names : ∀ name ∈ more, IsName name) :
    ∀ token ∈ longFront more ++ shortLine, token.IsProper := by
  have tokens : longFront more ++ shortLine =
      [Token.keyword .class_, .identifier "M", .symbol '{', .keyword .function, .keyword .void, .identifier "f",
        .symbol '(', .symbol ')', .symbol '{', .keyword .var, .keyword .int, .identifier "a"] ++
      (more.flatMap (fun name => [Token.symbol ',', .identifier name]) ++ Token.symbol ';' :: shortLine) := by
    simp [longFront, longLine, Written.Subroutine.heading, kindKeyword, returnToken, parameterTokens,
      Variables.tokens, TypeName.token]
  have comma : (Token.symbol ',').IsProper := by decide
  rw [tokens]
  refine List.forall_mem_append.mpr ⟨by decide, List.forall_mem_append.mpr ⟨fun token member => ?_, by decide⟩⟩
  obtain ⟨name, inMore, inTokens⟩ := List.mem_flatMap.mp member
  rcases List.mem_cons.mp inTokens with rfl | isName
  · exact comma
  · rw [List.mem_singleton.mp isName]
    exact names name inMore

/-- If the line is counted as one of no names, the other one is refused, although a class may go on so. -/
private theorem longLine_reported (names : ∀ name ∈ more, IsName name) (full : counted (more.length + 1) = 0) :
    ∃ tokens, tokenize (spell (longFront more ++ shortLine)) = .ok tokens ∧
      ((⟨{}, 0⟩ : Session).compileTokens tokens).1 =
        .error (.unexpected 1 (.spelled "\x7d") (some (.keyword .var))) ∧
      ∃ reached, (Parser.class_ (readingBudget tokens)).run (.ofTokens tokens 0) =
          .error (.expected (.spelled "\x7d")) reached ∧
        ∀ consumed, ¬ IsFirstOffence tokens consumed reached.cursor.rest := by
  let tokens := (longFront more ++ shortLine).map (Located.mk · 1)
  let behind := shortLine.map (Located.mk · 1)
  have parted : tokens = (longFront more).map (Located.mk · 1) ++ behind := List.map_append
  have front : ((longFront more).map (Located.mk · 1)).map (·.token) = longFront more :=
    (List.map_map ..).trans (List.map_id _)
  have reads : Reads (.ofTokens tokens 0) (longFront more) ((State.ofTokens tokens 0).reading behind) :=
    ⟨⟨_, parted, front⟩, rfl⟩
  have readsOn : (longLine more).ReadsOn := List.forall_mem_nil _
  obtain ⟨reached, stopped, same⟩ := class_stops_behind_locals (longLine more) readsOn ⟨_, rfl, full⟩ reads
    rfl (Nat.lt_succ_self _)
  refine ⟨tokens, tokenize_spell (proper_longFront more names), ?_, reached, stopped, fun consumed offence => ?_⟩
  · have ran : (Parser.class_ (readingBudget tokens)).run (.ofTokens tokens 0) =
        .error (.expected (.spelled "\x7d")) reached := stopped
    rw [Session.compileTokens, ran]
    show Except.error (Error.unexpected reached.cursor.line (.spelled "\x7d") reached.cursor.peek?) = _
    rw [same]
    rfl
  · rw [same] at offence
    have consumedAll := List.append_cancel_right (offence.parted.symm.trans parted)
    refine offence.offends ⟨.keyword .var, 1⟩ _ rfl (twoLines more)
      [.keyword .int, .identifier "b", .symbol ';', .keyword .return_, .symbol ';', .symbol '}', .symbol '}'] ?_
    rw [consumedAll, front]
    exact tokens_twoLines more

end LongLine

end JackToolchain.Jack

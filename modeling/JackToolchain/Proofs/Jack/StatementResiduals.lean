import JackToolchain.Proofs.Jack.ClassRecognition
import JackToolchain.Proofs.Jack.ExpressionResiduals

/-!
# Errors in statements

Every parser of statements stops at the first token that no statement can have there.

## Main Definitions

* `continuesStatements` — the tokens by which statements go on.

## Main Statements

* `cons_mem_statement` — a statement begins with a word behind which something may stand.
* `localizes_block`, `localizes_statement`, `localizes_statements` — blocks and statements.

## Design Notes

A branch may go on behind its first block, so `else` is among the tokens that continue statements although
none begins with it.
-/

namespace JackToolchain.Jack.Written

open JackToolchain.Jack.Parser

/-- The tokens by which statements go on. -/
def continuesStatements : Token → Bool
  | .keyword .let_ | .keyword .if_ | .keyword .while_ | .keyword .do_ | .keyword .return_ => true
  | .keyword .else_ => true
  | _ => false

/-! ## Productions -/

section Productions

variable {texts : Texts} {text : List Token} {token : Token}

theorem statementTokens_eq_flatMap (statements : List Statement) :
    statementTokens statements = statements.flatMap Statement.tokens := by
  induction statements with
  | nil => rfl
  | cons statement rest ih =>
      rw [statementTokens, ih]
      rfl

theorem mem_ended :
    text ∈ ended texts ↔
      ∃ value : Expression, ∃ behind ∈ texts, text = value.tokens ++ .symbol ';' :: behind := by
  constructor
  · rintro ⟨value, _, ⟨-, behind, member, rfl⟩, rfl⟩
    exact ⟨value, behind, member, rfl⟩
  · rintro ⟨value, behind, member, rfl⟩
    exact ⟨value, _, ⟨(), behind, member, rfl⟩, rfl⟩

theorem mem_assigned :
    text ∈ assigned texts ↔
      ∃ value : Expression, ∃ behind ∈ texts,
        text = .symbol '=' :: (value.tokens ++ .symbol ';' :: behind) := by
  constructor
  · rintro ⟨-, _, inEnded, rfl⟩
    obtain ⟨value, behind, member, rfl⟩ := mem_ended.mp inEnded
    exact ⟨value, behind, member, rfl⟩
  · rintro ⟨value, behind, member, rfl⟩
    exact ⟨(), _, mem_ended.mpr ⟨value, behind, member, rfl⟩, rfl⟩

theorem mem_called :
    text ∈ argumentsPhrase.enclosed '(' ')' ++ (Phrase.symbol ';' ++ texts) ↔
      ∃ arguments, ∃ behind ∈ texts,
        text = .symbol '(' :: (argumentTokens arguments ++ .symbol ')' :: .symbol ';' :: behind) := by
  rw [Texts.enclosed_append]
  constructor
  · rintro ⟨-, _, ⟨arguments, _, ⟨-, _, ⟨-, behind, member, rfl⟩, rfl⟩, rfl⟩, rfl⟩
    exact ⟨arguments, behind, member, rfl⟩
  · rintro ⟨arguments, behind, member, rfl⟩
    exact ⟨(), _, ⟨arguments, _, ⟨(), _, ⟨(), behind, member, rfl⟩, rfl⟩, rfl⟩, rfl⟩

theorem mem_condition :
    text ∈ conditionPhrase ++ texts ↔
      ∃ condition, ∃ behind ∈ texts, text = conditionTokens condition ++ behind :=
  Iff.rfl

theorem mem_block :
    text ∈ blockPhrase ++ texts ↔
      ∃ body, ∃ behind ∈ texts, text = braced (statementTokens body) ++ behind := by
  simp only [statementTokens_eq_flatMap]
  exact Iff.rfl

/-- What stands behind the word that begins a statement may stand there. -/
theorem exists_behindWord {written : Statement} {behind : List Token} (member : behind ∈ texts)
    (same : token :: text = written.tokens ++ behind) :
    ∃ word following, token = .keyword word ∧ behindWord texts word = some following ∧
      text ∈ following := by
  cases written with
  | assign target value =>
      obtain ⟨rfl, rfl⟩ := List.cons.inj same
      refine ⟨.let_, _, rfl, rfl, Texts.cons_mem_name.mpr ⟨⟨target, rfl⟩, .inr ?_⟩⟩
      exact mem_assigned.mpr ⟨value, behind, member, by simp⟩
  | assignElement array index value =>
      obtain ⟨rfl, rfl⟩ := List.cons.inj same
      refine ⟨.let_, _, rfl, rfl, Texts.cons_mem_name.mpr ⟨⟨array, rfl⟩, .inl ?_⟩⟩
      refine ⟨index, _, mem_assigned.mpr ⟨value, behind, member, rfl⟩, ?_⟩
      simp [Phrase.enclosed, Expression.phrase]
  | branch condition body =>
      obtain ⟨rfl, rfl⟩ := List.cons.inj same
      refine ⟨.if_, _, rfl, rfl, mem_condition.mpr ⟨condition, _, ?_, List.append_assoc _ _ _⟩⟩
      exact mem_block.mpr ⟨body, behind, .inr member, rfl⟩
  | choice condition whenTrue whenFalse =>
      obtain ⟨rfl, rfl⟩ := List.cons.inj same
      refine ⟨.if_, _, rfl, rfl, mem_condition.mpr ⟨condition, _, ?_, List.append_assoc _ _ _⟩⟩
      refine mem_block.mpr ⟨whenTrue, _, .inl ?_, List.append_assoc _ _ _⟩
      exact Texts.cons_mem_keyword.mpr ⟨rfl, mem_block.mpr ⟨whenFalse, behind, member, rfl⟩⟩
  | loop condition body =>
      obtain ⟨rfl, rfl⟩ := List.cons.inj same
      refine ⟨.while_, _, rfl, rfl, mem_condition.mpr ⟨condition, _, ?_, List.append_assoc _ _ _⟩⟩
      exact mem_block.mpr ⟨body, behind, member, rfl⟩
  | run callee arguments =>
      obtain ⟨rfl, rfl⟩ := List.cons.inj same
      refine ⟨.do_, _, rfl, rfl, ?_⟩
      cases callee with
      | own name =>
          refine Texts.cons_mem_name.mpr ⟨⟨name, rfl⟩, .inr ?_⟩
          exact mem_called.mpr ⟨arguments, behind, member, by simp⟩
      | member owner name =>
          refine Texts.cons_mem_name.mpr ⟨⟨owner, rfl⟩, .inl ?_⟩
          refine Texts.cons_mem_symbol.mpr ⟨rfl, Texts.cons_mem_name.mpr ⟨⟨name, rfl⟩, ?_⟩⟩
          exact mem_called.mpr ⟨arguments, behind, member, by simp⟩
  | leave value =>
      obtain ⟨rfl, rfl⟩ := List.cons.inj same
      refine ⟨.return_, _, rfl, rfl, ?_⟩
      cases value with
      | none => exact .inr ⟨(), behind, member, rfl⟩
      | some value => exact .inl (mem_ended.mpr ⟨value, behind, member, List.append_assoc _ _ _⟩)

/-- What may stand behind `let` makes a statement with it,… -/
theorem let_mem_statement
    (within : text ∈ Phrase.name ++ ((Expression.phrase.enclosed '[' ']' ++ assigned texts) ∪ assigned texts)) :
    .keyword .let_ :: text ∈ Statement.phrase ++ texts := by
  obtain ⟨target, _, inIndex | inAssigned, rfl⟩ := within
  · obtain ⟨index, _, inAssigned, rfl⟩ := inIndex
    obtain ⟨value, behind, member, rfl⟩ := mem_assigned.mp inAssigned
    refine ⟨.assignElement target index value, behind, member, ?_⟩
    simp [Statement.phrase, Statement.tokens, Phrase.enclosed, Expression.phrase, Phrase.name,
      Phrase.single]
  · obtain ⟨value, behind, member, rfl⟩ := mem_assigned.mp inAssigned
    refine ⟨.assign target value, behind, member, ?_⟩
    simp [Statement.phrase, Statement.tokens, Phrase.name, Phrase.single]

/-- …and behind `if`,… -/
theorem if_mem_statement
    (within : text ∈ conditionPhrase ++ (blockPhrase ++
      ((Phrase.keyword .else_ ++ (blockPhrase ++ texts)) ∪ texts))) :
    .keyword .if_ :: text ∈ Statement.phrase ++ texts := by
  obtain ⟨condition, _, inBody, rfl⟩ := mem_condition.mp within
  obtain ⟨body, _, inElse | member, rfl⟩ := mem_block.mp inBody
  · obtain ⟨-, _, inElse, rfl⟩ := inElse
    obtain ⟨whenFalse, behind, member, rfl⟩ := mem_block.mp inElse
    refine ⟨.choice condition body whenFalse, behind, member, ?_⟩
    simp [Statement.phrase, Statement.tokens, Phrase.keyword, Phrase.single]
  · refine ⟨.branch condition body, _, member, ?_⟩
    simp [Statement.phrase, Statement.tokens]

/-- …and behind `while`,… -/
theorem while_mem_statement (within : text ∈ conditionPhrase ++ (blockPhrase ++ texts)) :
    .keyword .while_ :: text ∈ Statement.phrase ++ texts := by
  obtain ⟨condition, _, inBody, rfl⟩ := mem_condition.mp within
  obtain ⟨body, behind, member, rfl⟩ := mem_block.mp inBody
  refine ⟨.loop condition body, behind, member, ?_⟩
  simp [Statement.phrase, Statement.tokens]

/-- …and behind `do`,… -/
theorem do_mem_statement
    (within : text ∈ Phrase.name ++
      behindOwner (argumentsPhrase.enclosed '(' ')' ++ (Phrase.symbol ';' ++ texts))) :
    .keyword .do_ :: text ∈ Statement.phrase ++ texts := by
  obtain ⟨owner, _, inMember | called, rfl⟩ := within
  · obtain ⟨-, _, ⟨name, _, called, rfl⟩, rfl⟩ := inMember
    obtain ⟨arguments, behind, member, rfl⟩ := mem_called.mp called
    refine ⟨.run (.member owner name) arguments, behind, member, ?_⟩
    simp [Statement.phrase, Statement.tokens, Term.tokens, Callee.tokens, Phrase.name,
      Phrase.symbol, Phrase.single]
  · obtain ⟨arguments, behind, member, rfl⟩ := mem_called.mp called
    refine ⟨.run (.own owner) arguments, behind, member, ?_⟩
    simp [Statement.phrase, Statement.tokens, Term.tokens, Callee.tokens, Phrase.name,
      Phrase.single]

/-- …and behind `return`. -/
theorem return_mem_statement (within : text ∈ ended texts ∪ (Phrase.symbol ';' ++ texts)) :
    .keyword .return_ :: text ∈ Statement.phrase ++ texts := by
  rcases within with inEnded | ⟨-, behind, member, rfl⟩
  · obtain ⟨value, behind, member, rfl⟩ := mem_ended.mp inEnded
    refine ⟨.leave (some value), behind, member, ?_⟩
    simp [Statement.phrase, Statement.tokens, resultTokens]
  · exact ⟨.leave none, behind, member, rfl⟩

theorem cons_mem_statement :
    token :: text ∈ Statement.phrase ++ texts ↔
      ∃ word behind, token = .keyword word ∧ behindWord texts word = some behind ∧ text ∈ behind := by
  constructor
  · rintro ⟨written, behind, member, same⟩
    exact exists_behindWord member same
  · rintro ⟨word, behind, rfl, next, within⟩
    cases word with
    | let_ =>
        obtain rfl := Option.some.inj next
        exact let_mem_statement within
    | if_ =>
        obtain rfl := Option.some.inj next
        exact if_mem_statement within
    | while_ =>
        obtain rfl := Option.some.inj next
        exact while_mem_statement within
    | do_ =>
        obtain rfl := Option.some.inj next
        exact do_mem_statement within
    | return_ =>
        obtain rfl := Option.some.inj next
        exact return_mem_statement within
    | _ => exact absurd next.symm (Option.some_ne_none _)

theorem nil_not_mem_statement : [] ∉ Statement.phrase ++ texts := by
  rintro ⟨written, behind, -, same⟩
  cases written <;> cases same

/-- A word with which no statement begins does not begin statements. -/
theorem avoids_word {word : Keyword} (none_ : ∀ texts, behindWord texts word = none)
    (apart : texts.Avoids (· == .keyword word)) :
    (Statement.phrase.repeated ++ texts).Avoids (· == .keyword word) := by
  rw [Texts.repeated_append, Texts.avoids_union]
  refine ⟨fun token text member => ?_, apart⟩
  obtain ⟨other, behind, rfl, next, -⟩ := cons_mem_statement.mp member
  rw [beq_eq_false_iff_ne]
  rintro ⟨⟩
  exact Option.some_ne_none _ (next.symm.trans (none_ _))

end Productions

/-! ## Conditions and blocks -/

theorem localizes_condition (budget : Nat) :
    Localizes (Parser.condition budget) conditionPhrase (fun _ => false) budget := by
  intro texts before _ within
  rw [conditionPhrase, Texts.enclosed_append]
  refine .expect_bind fun _ opened => ?_
  refine (localizes_value budget (Texts.avoids_symbol.mpr rfl) (opened.within within)).bind
    fun _ _ _ _ _ => ?_
  exact .expect_bind fun _ _ => .pure rfl

section Bodies

variable {statements : Parser (List Jack.Statement)} {texts : Texts} {before : State} {budget : Nat}
  (body : Localizes statements Statement.phrase.repeated continuesStatements budget)

include body

theorem localizes_block :
    Localizes (Parser.block statements) blockPhrase (fun _ => false) budget := by
  intro texts before _ within
  rw [blockPhrase, Texts.enclosed_append]
  refine .expect_bind fun _ opened => ?_
  refine (body (Texts.avoids_symbol.mpr rfl) (opened.within within)).bind fun _ _ _ _ _ => ?_
  exact .expect_bind fun _ _ => .pure rfl

theorem tracks_branch (within : before.cursor.rest.length < budget + 1)
    (apart : texts.Avoids (· == .keyword .else_)) :
    Tracks (Phrase.keyword .if_ ++ (conditionPhrase ++ (blockPhrase ++
        ((Phrase.keyword .else_ ++ (blockPhrase ++ texts)) ∪ texts))))
      (Parser.branch statements budget) (fun _ => texts) before := by
  refine .silent_bind .freshLabel fun number numbered same => ?_
  rw [← same] at within
  refine .expect_bind fun _ begun => ?_
  have inside := begun.within_of_cons within
  refine (localizes_condition budget Texts.avoids_nothing inside).bind fun _ _ _ _ tested => ?_
  have inBody := tested.within inside
  refine (localizes_block body Texts.avoids_nothing inBody).bind fun _ _ _ _ done => ?_
  refine .eat_bind apart (fun _ otherwise => ?_) ?_
  · have inElse := otherwise.within (done.within inBody)
    exact (localizes_block body Texts.avoids_nothing inElse).bind fun _ _ _ _ _ => .pure rfl
  · exact .pure rfl

theorem tracks_loop (within : before.cursor.rest.length < budget + 1) :
    Tracks (Phrase.keyword .while_ ++ (conditionPhrase ++ (blockPhrase ++ texts)))
      (Parser.loop statements budget) (fun _ => texts) before := by
  refine .silent_bind .freshLabel fun number numbered same => ?_
  rw [← same] at within
  refine .expect_bind fun _ begun => ?_
  have inside := begun.within_of_cons within
  refine (localizes_condition budget Texts.avoids_nothing inside).bind fun _ _ _ _ tested => ?_
  refine (localizes_block body Texts.avoids_nothing (tested.within inside)).bind fun _ _ _ _ _ => ?_
  exact .pure rfl

end Bodies

/-! ## Statements without bodies -/

section Plain

variable {texts : Texts} {before : State} {budget : Nat}

theorem tracks_assignment (within : before.cursor.rest.length < budget + 1) :
    Tracks (Phrase.keyword .let_ ++ (Phrase.name ++
        ((Expression.phrase.enclosed '[' ']' ++ assigned texts) ∪ assigned texts)))
      (Parser.assignment budget) (fun _ => texts) before := by
  refine .expect_bind fun _ begun => ?_
  refine .identifier_bind fun name _ named => ?_
  have inside := named.within (begun.within_of_cons within)
  rw [Texts.enclosed_append]
  refine .eat_bind (Texts.avoids_symbol.mpr rfl) (fun _ opened => ?_) ?_
  · refine .silent_bind (.place name) fun _ _ same => ?_
    have inIndex := opened.within inside
    rw [← same] at inIndex
    refine (localizes_value budget (Texts.avoids_symbol.mpr rfl) inIndex).bind fun _ _ _ _ read => ?_
    refine .expect_bind fun _ closed => .expect_bind fun _ equals => ?_
    have inValue := equals.within (closed.within (read.within inIndex))
    refine (localizes_value budget (Texts.avoids_symbol.mpr rfl) inValue).bind fun _ _ _ _ _ => ?_
    exact .expect_bind fun _ _ => .pure rfl
  · refine .expect_bind fun _ equals => ?_
    refine (localizes_value budget (Texts.avoids_symbol.mpr rfl) (equals.within inside)).bind
      fun _ _ _ _ _ => ?_
    refine .silent_bind (.place name) fun _ _ _ => ?_
    exact .expect_bind fun _ _ => .pure rfl

theorem tracks_callStatement (within : before.cursor.rest.length < budget + 1) :
    Tracks (Phrase.keyword .do_ ++ (Phrase.name ++
        behindOwner (argumentsPhrase.enclosed '(' ')' ++ (Phrase.symbol ';' ++ texts))))
      (Parser.callStatement budget) (fun _ => texts) before := by
  refine .expect_bind fun _ begun => ?_
  have inside := Nat.lt_succ_of_lt (begun.within_of_cons within)
  refine (tracks_call (localizes_value budget) (Nat.le_refl _) inside (fun _ member => member)
    fun _ _ _ _ member _ => member).bind fun _ _ _ _ _ => ?_
  exact .expect_bind fun _ _ => .pure rfl

theorem tracks_leave (within : before.cursor.rest.length < budget + 1) :
    Tracks (Phrase.keyword .return_ ++ (ended texts ∪ (Phrase.symbol ';' ++ texts)))
      (Parser.leave budget) (fun _ => texts) before := by
  refine .expect_bind fun after begun => ?_
  refine .isNext_bind (fun ends => ?_) fun goesOn => ?_
  · refine .skip ((avoids_value fun _ => rfl).absent ends) ?_
    exact .expect_bind fun _ _ => .pure rfl
  · have value : Tracks (ended texts) (some <$> Parser.value budget) (fun _ => Phrase.symbol ';' ++ texts)
        after :=
      .map (localizes_value budget (Texts.avoids_symbol.mpr rfl) (begun.within_of_cons within))
    refine .take (Texts.absent_symbol goesOn) (value.bind fun _ _ _ _ _ => ?_)
    exact .expect_bind fun _ _ => .pure rfl

end Plain

/-! ## Statements -/

/-- A word that is next begins the statement. -/
theorem narrow_statement {texts behind : Texts} {before : State} {α : Type} {parser : Parser α}
    {left : α → Texts} {word : Keyword} (found : before.cursor.peek? = some (.keyword word))
    (next : behindWord (Statement.phrase.repeated ++ texts) word = some behind)
    (apart : texts.Avoids (· == .keyword word))
    (tracks : Tracks (Phrase.keyword word ++ behind) parser left before) :
    Tracks (Statement.phrase.repeated ++ texts) parser left before := by
  rw [Texts.repeated_append]
  refine .take (apart.absent found) (tracks.narrow ?_ fun text member seen => ?_)
  · rintro _ ⟨-, text, member, rfl⟩
    exact cons_mem_statement.mpr ⟨word, behind, rfl, next, member⟩
  · obtain ⟨text, rfl⟩ := List.head?_eq_some_iff.mp (seen.trans found)
    obtain ⟨_, _, ⟨⟩, same, member⟩ := cons_mem_statement.mp member
    obtain rfl := Option.some.inj (next.symm.trans same)
    exact Texts.cons_mem_keyword.mpr ⟨rfl, member⟩

/-- Where no statement begins. -/
theorem absent_statement {texts : Texts} {before : State}
    (nothing : ∀ word, before.cursor.peek? = some (.keyword word) → behindWord texts word = none) :
    ∀ text ∈ Statement.phrase ++ texts, text.head? ≠ before.cursor.peek? := by
  intro text member seen
  cases text with
  | nil => exact nil_not_mem_statement member
  | cons token text =>
      obtain ⟨word, behind, rfl, next, -⟩ := cons_mem_statement.mp member
      exact Option.some_ne_none _ (next.symm.trans (nothing word seen.symm))

/-- A statement is at least one token. -/
theorem statement_advances {before after : State} {budget : Nat} {statement : Jack.Statement}
    (ran : (Parser.statement budget).run before = .ok (some statement) after) :
    after.cursor.rest.length < before.cursor.rest.length := by
  obtain ⟨written, reads, -⟩ := (recognizes_statement _).present _ _ _ ran
  have moved := (Passes.of_reads reads).length
  rw [State.passing_cursor] at moved
  cases written <;> (rw [Statement.tokens, List.length_cons] at moved; omega)

/-- The words by which statements go on do not stand behind them. -/
theorem avoids_continuing {texts : Texts} {word : Keyword} (avoids : texts.Avoids continuesStatements)
    (continues : continuesStatements (.keyword word) = true) : texts.Avoids (· == .keyword word) :=
  avoids.mono fun token same => by rw [eq_of_beq same, continues]

/-- **A statement**, if one follows. -/
theorem localizes_statement (budget : Nat) :
    LocalizesItem (Parser.statement budget) Statement.phrase continuesStatements budget := by
  induction budget with
  | zero => exact ⟨fun _ within => absurd within (Nat.not_lt_zero _),
      fun within => absurd within (Nat.not_lt_zero _)⟩
  | succ budget ih =>
      have body := ih.many (Nat.le_refl budget)
      refine ⟨fun {texts before} avoids within => ?_, fun _ ran => statement_advances ran⟩
      have apartElse := avoids_word (fun _ => rfl) (@avoids_continuing texts .else_ avoids rfl)
      refine .peek_bind ?_
      split
      · rename_i found
        exact narrow_statement found rfl (avoids_continuing avoids rfl) (.map (tracks_assignment within))
      · rename_i found
        exact narrow_statement found rfl (avoids_continuing avoids rfl)
          (.map (tracks_branch body within apartElse))
      · rename_i found
        exact narrow_statement found rfl (avoids_continuing avoids rfl) (.map (tracks_loop body within))
      · rename_i found
        exact narrow_statement found rfl (avoids_continuing avoids rfl) (.map (tracks_callStatement within))
      · rename_i found
        exact narrow_statement found rfl (avoids_continuing avoids rfl) (.map (tracks_leave within))
      -- No other word begins a statement, so there is none.
      · rename_i noLet noIf noWhile noDo noReturn
        rw [Texts.repeated_append]
        refine .skip (absent_statement fun word seen => ?_) (.pure rfl)
        cases word with
        | let_ => exact (noLet seen).elim
        | if_ => exact (noIf seen).elim
        | while_ => exact (noWhile seen).elim
        | do_ => exact (noDo seen).elim
        | return_ => exact (noReturn seen).elim
        | _ => rfl

/-- **Statements.** -/
theorem localizes_statements (budget : Nat) :
    Localizes (Parser.statements budget) Statement.phrase.repeated continuesStatements budget :=
  (localizes_statement budget).many (Nat.le_refl budget)

end JackToolchain.Jack.Written

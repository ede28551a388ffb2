import JackToolchain.Proofs.Jack.ExpressionRecognition
import JackToolchain.Proofs.Jack.Residuals

/-!
# Errors in expressions

Every parser of the grammar of expressions stops at the first token that no expression can have there.

## Main Definitions

* `opensTail`, `continuesValue` — the tokens by which an operand or an expression goes on.

## Main Statements

* `cons_mem_term` — an operand begins with a token behind which something may stand.
* `localizes_term`, `localizes_value`, `tracks_call` — operands, expressions and calls.

## Design Notes

Where an expression ends is not marked by a token of its own: it ends where neither an operator nor the rest
of an operand follows.  What follows is left to whoever has asked for the expression, and each statement here
says so by leaving the texts behind it.
-/

namespace JackToolchain.Jack.Written

open JackToolchain.Jack.Parser

/-! ## Phrases -/

/-- What an operator and the operand behind it spell. -/
def stepPhrase : Phrase (BinaryOperator × Term) where
  tokens := stepTokens
  proper := by
    have known : (Token.symbol BinaryOperator.add.symbol).IsProper := by
      show '+' ∈ symbols
      decide
    exact ⟨(.add, .null), List.forall_mem_cons.mpr ⟨known, List.forall_mem_singleton.mpr trivial⟩⟩

theorem behindFirst_symbol (texts : Texts) {c : Char} (noGroup : c ≠ '(') :
    behindFirst texts (.symbol c) = (UnaryOperator.ofSymbol? c).map fun _ => Term.phrase ++ texts := by
  rw [behindFirst]
  exact noGroup

/-- The tokens by which an operand that is a name goes on. -/
def opensTail : Token → Bool
  | .symbol '[' | .symbol '(' | .symbol '.' => true
  | _ => false

/-- The tokens of binary operators. -/
def isOperator : Token → Bool
  | .symbol c => (BinaryOperator.ofSymbol? c).isSome
  | _ => false

/-- The tokens by which an expression goes on. -/
def continuesValue (token : Token) : Bool := opensTail token || isOperator token

/-! ## Productions -/

section Productions

variable {texts : Texts} {text : List Token} {token : Token}

/-- What stands behind the first token of an operand may stand there. -/
theorem exists_behindFirst {written : Term} {behind : List Token} (member : behind ∈ texts)
    (same : token :: text = written.tokens ++ behind) :
    ∃ following, behindFirst texts token = some following ∧ text ∈ following := by
  cases written with
  | integer _ | string _ | true_ | false_ | null | this =>
      obtain ⟨rfl, rfl⟩ := List.cons.inj same
      exact ⟨texts, rfl, member⟩
  | «variable» name =>
      obtain ⟨rfl, rfl⟩ := List.cons.inj same
      exact ⟨behindName texts, rfl, .inr (.inr member)⟩
  | element array index =>
      obtain ⟨rfl, rfl⟩ := List.cons.inj same
      exact ⟨behindName texts, rfl, .inl ⟨index, behind, member, rfl⟩⟩
  | call callee arguments =>
      -- Whatever the callee is, the same text stands behind its last name.
      have called : .symbol '(' :: (argumentTokens arguments ++ [.symbol ')']) ++ behind ∈
          argumentsPhrase.enclosed '(' ')' ++ texts := ⟨arguments, behind, member, rfl⟩
      cases callee with
      | own name =>
          obtain ⟨rfl, rfl⟩ := List.cons.inj same
          exact ⟨behindName texts, rfl, .inr (.inl (.inr called))⟩
      | member owner name =>
          obtain ⟨rfl, rfl⟩ := List.cons.inj same
          exact ⟨behindName texts, rfl, .inr (.inl (.inl ⟨(), _, ⟨name, _, called, rfl⟩, rfl⟩))⟩
  | group inner =>
      obtain ⟨rfl, rfl⟩ := List.cons.inj same
      exact ⟨_, rfl, inner, _, ⟨(), behind, member, rfl⟩, List.append_assoc _ _ _⟩
  | unary operator operand =>
      obtain ⟨rfl, rfl⟩ := List.cons.inj same
      refine ⟨Term.phrase ++ texts, ?_, operand, behind, member, rfl⟩
      cases operator <;> rfl

/-- A name and what may stand behind it make an operand,… -/
theorem identifier_mem_term {name : String} (member : text ∈ behindName texts) :
    .identifier name :: text ∈ Term.phrase ++ texts := by
  rcases member with ⟨index, behind, member, rfl⟩ | (⟨-, _, ⟨method, _, called, rfl⟩, rfl⟩ | called) |
    member
  · exact ⟨.element name index, behind, member, rfl⟩
  · obtain ⟨arguments, behind, member, rfl⟩ := called
    exact ⟨.call (.member name method) arguments, behind, member, rfl⟩
  · obtain ⟨arguments, behind, member, rfl⟩ := called
    exact ⟨.call (.own name) arguments, behind, member, rfl⟩
  · exact ⟨.variable name, text, member, rfl⟩

/-- …and so do other tokens. -/
theorem mem_term_of_behindFirst {behind : Texts} (next : behindFirst texts token = some behind)
    (member : text ∈ behind) : token :: text ∈ Term.phrase ++ texts := by
  unfold behindFirst at next
  split at next
  · rename_i value
    obtain rfl := Option.some.inj next
    exact ⟨.integer value, text, member, rfl⟩
  · rename_i content
    obtain rfl := Option.some.inj next
    exact ⟨.string content, text, member, rfl⟩
  · obtain rfl := Option.some.inj next
    exact ⟨.true_, text, member, rfl⟩
  · obtain rfl := Option.some.inj next
    exact ⟨.false_, text, member, rfl⟩
  · obtain rfl := Option.some.inj next
    exact ⟨.null, text, member, rfl⟩
  · obtain rfl := Option.some.inj next
    exact ⟨.this, text, member, rfl⟩
  · obtain rfl := Option.some.inj next
    exact identifier_mem_term member
  · obtain rfl := Option.some.inj next
    obtain ⟨inner, _, ⟨-, behind, member, rfl⟩, rfl⟩ := member
    exact ⟨.group inner, behind, member, congrArg (List.cons _) (List.append_assoc _ _ _).symm⟩
  · obtain ⟨operator, isOperator, rfl⟩ := Option.map_eq_some_iff.mp next
    obtain ⟨operand, behind, member, rfl⟩ := member
    rw [← UnaryOperator.symbol_of_ofSymbol? isOperator]
    exact ⟨.unary operator operand, behind, member, rfl⟩
  · exact absurd next.symm (Option.some_ne_none _)

theorem cons_mem_term :
    token :: text ∈ Term.phrase ++ texts ↔
      ∃ behind, behindFirst texts token = some behind ∧ text ∈ behind := by
  constructor
  · rintro ⟨written, behind, member, same⟩
    exact exists_behindFirst member same
  · rintro ⟨behind, next, member⟩
    exact mem_term_of_behindFirst next member

theorem begins_term {behind : Texts} (next : behindFirst texts token = some behind) (text : List Token) :
    token :: text ∈ Term.phrase ++ texts ↔ text ∈ behind := by
  rw [cons_mem_term, next]
  constructor
  · rintro ⟨_, ⟨⟩, member⟩
    exact member
  · exact fun member => ⟨behind, rfl, member⟩

theorem nil_not_mem_term : [] ∉ Term.phrase ++ texts := by
  rintro ⟨written, behind, -, same⟩
  cases written with
  | call callee arguments => cases callee <;> cases same
  | _ => cases same

theorem cons_mem_step :
    token :: text ∈ stepPhrase ++ texts ↔
      (∃ operator : BinaryOperator, token = .symbol operator.symbol) ∧ text ∈ Term.phrase ++ texts := by
  constructor
  · rintro ⟨⟨operator, operand⟩, behind, member, same⟩
    obtain ⟨rfl, rfl⟩ := List.cons.inj same
    exact ⟨⟨operator, rfl⟩, operand, behind, member, rfl⟩
  · rintro ⟨⟨operator, rfl⟩, operand, behind, member, rfl⟩
    exact ⟨(operator, operand), behind, member, rfl⟩

theorem expression_append :
    Expression.phrase ++ texts = Term.phrase ++ (stepPhrase.repeated ++ texts) := by
  ext text
  constructor
  · rintro ⟨⟨first, rest⟩, behind, member, rfl⟩
    refine ⟨first, _, ⟨rest, behind, member, rfl⟩, ?_⟩
    show (first.tokens ++ restTokens rest) ++ behind = first.tokens ++ (rest.flatMap stepTokens ++ behind)
    rw [restTokens_eq_flatMap, List.append_assoc]
  · rintro ⟨first, _, ⟨rest, behind, member, rfl⟩, rfl⟩
    refine ⟨.chain first rest, behind, member, ?_⟩
    show first.tokens ++ (rest.flatMap stepTokens ++ behind) = (first.tokens ++ restTokens rest) ++ behind
    rw [restTokens_eq_flatMap, List.append_assoc]

theorem arguments_append :
    argumentsPhrase ++ texts = (Expression.phrase.separated ++ texts) ∪ texts := by
  ext text
  constructor
  · rintro ⟨arguments, behind, member, rfl⟩
    cases arguments with
    | nil => exact .inr member
    | cons first others =>
        refine .inl ⟨(first, others), behind, member, congrArg (· ++ behind) ?_⟩
        show first.tokens ++ furtherTokens others = _
        rw [furtherTokens_eq_flatMap]
        rfl
  · rintro (⟨⟨first, others⟩, behind, member, rfl⟩ | member)
    · refine ⟨first :: others, behind, member, congrArg (· ++ behind) ?_⟩
      show _ = first.tokens ++ furtherTokens others
      rw [furtherTokens_eq_flatMap]
      rfl
    · exact ⟨[], text, member, rfl⟩

/-- No operand begins with a token behind which nothing may stand,… -/
theorem avoids_term {excluded : Token → Bool}
    (none_ : ∀ token, excluded token = true → behindFirst texts token = none) :
    (Term.phrase ++ texts).Avoids excluded := by
  intro token text member
  obtain ⟨behind, next, -⟩ := cons_mem_term.mp member
  cases isExcluded : excluded token with
  | false => rfl
  | true => exact absurd (next.symm.trans (none_ token isExcluded)) (Option.some_ne_none _)

/-- …and no expression either. -/
theorem avoids_value {closing : Char} (none_ : ∀ texts, behindFirst texts (.symbol closing) = none) :
    (Expression.phrase ++ texts).Avoids (· == .symbol closing) := by
  rw [expression_append]
  refine avoids_term fun token isClosing => ?_
  rw [eq_of_beq isClosing]
  exact none_ _

/-- What stands behind an operand does not go on with it. -/
theorem avoids_steps (avoids : texts.Avoids continuesValue) :
    (stepPhrase.repeated ++ texts).Avoids opensTail := by
  rw [Texts.repeated_append, Texts.avoids_union]
  refine ⟨fun token text member => ?_, avoids.mono fun token opens => ?_⟩
  · obtain ⟨⟨operator, rfl⟩, -⟩ := cons_mem_step.mp member
    cases operator <;> rfl
  · rw [continuesValue, opens, Bool.true_or]

/-- An operator leads to the operand behind it. -/
theorem begins_steps {c : Char} {operator : BinaryOperator} (known : BinaryOperator.ofSymbol? c = some operator)
    (avoids : texts.Avoids continuesValue) (text : List Token) :
    .symbol c :: text ∈ stepPhrase.repeated ++ texts ↔
      text ∈ Term.phrase ++ (stepPhrase.repeated ++ texts) := by
  have goesOn : continuesValue (.symbol c) = true := by
    rw [continuesValue, isOperator, known, Option.isSome_some, Bool.or_true]
  rw [Texts.repeated_append, Texts.mem_union, cons_mem_step, or_iff_left (avoids.not_mem goesOn),
    ← Texts.repeated_append]
  exact and_iff_right ⟨operator, by rw [BinaryOperator.symbol_of_ofSymbol? known]⟩

end Productions

/-! ## Chains -/

section Chains

variable {term : Parser Jack.Term} {bound budget : Nat}
  (operand : Localizes term Term.phrase opensTail bound)

include operand

/-- Where an operator is found, it and the operand behind it are passed,… -/
theorem tracks_operation {texts : Texts} {before : State} (avoids : texts.Avoids continuesValue)
    (within : before.cursor.rest.length < bound) :
    Tracks (stepPhrase.repeated ++ texts) (operation term)
      (fun found => if found.isSome then stepPhrase.repeated ++ texts else texts) before := by
  refine .peek_bind ?_
  split
  · rename_i c found
    split
    · rename_i operator isOperator
      refine .advance_bind found (begins_steps isOperator avoids) fun after passes => ?_
      refine (operand (avoids_steps avoids) (passes.within within)).bind fun _ _ _ _ _ => ?_
      exact .pure rfl
    · rename_i noOperator
      rw [Texts.repeated_append]
      refine .skip ?_ (.pure rfl)
      rintro _ ⟨⟨operator, operand⟩, behind, -, rfl⟩ seen
      obtain rfl : operator.symbol = c := Token.symbol.inj (Option.some.inj (seen.trans found))
      rw [BinaryOperator.ofSymbol?_symbol] at noOperator
      exact Option.some_ne_none _ noOperator
  · rename_i noSymbol
    rw [Texts.repeated_append]
    refine .skip ?_ (.pure rfl)
    rintro _ ⟨⟨operator, operand⟩, behind, -, rfl⟩ seen
    exact noSymbol _ seen.symm

/-- …which are at least one token. -/
theorem operation_advances {before after : State} {step : Jack.BinaryOperator × Jack.Term}
    (within : before.cursor.rest.length < bound) (ran : (operation term).run before = .ok (some step) after) :
    after.cursor.rest.length < before.cursor.rest.length := by
  obtain ⟨_, _, looked, ran⟩ := bind_eq_ok ran
  obtain ⟨rfl, rfl⟩ := peek?_eq_ok looked
  split at ran
  · rename_i c found
    split at ran
    · obtain ⟨_, between, advanced, ran⟩ := bind_eq_ok ran
      obtain ⟨value, _, ranTerm, ran⟩ := bind_eq_ok ran
      obtain ⟨-, rfl⟩ := pure_eq_ok ran
      have passes := Passes.of_reads (advance_eq_ok advanced found)
      have moved := operand.length_le (passes.within within) ranTerm
      rw [passes.length, List.length_singleton]
      omega
    · exact absurd (pure_eq_ok ran).1 (Option.some_ne_none _)
  · exact absurd (pure_eq_ok ran).1 (Option.some_ne_none _)

theorem localizes_operation : LocalizesItem (operation term) stepPhrase continuesValue bound where
  tracks := tracks_operation operand
  advances := operation_advances operand

theorem localizes_expression (enough : bound ≤ budget) :
    Localizes (Parser.expression term budget) Expression.phrase continuesValue bound := by
  intro texts before avoids within
  rw [expression_append]
  refine (operand (avoids_steps avoids) within).bind fun _ _ _ _ passes => ?_
  refine ((localizes_operation operand).many enough avoids (passes.within within)).bind
    fun _ _ _ _ _ => ?_
  exact .pure rfl

end Chains

/-! ## Calls -/

/-- In front of what a call names the parser leaves what stands behind the last name.  Of the texts behind the
first name those matter that begin with the token that is next there. -/
theorem tracks_callee {texts behind : Texts} {before : State}
    (apart : texts.Avoids (· == .symbol '.')) (among : ∀ text ∈ behindOwner texts, text ∈ behind)
    (narrows : ∀ name after, Passes before [.identifier name] after →
      ∀ text ∈ behind, text.head? = after.cursor.peek? → text ∈ behindOwner texts) :
    Tracks (Phrase.name ++ behind) Parser.callee (fun _ => texts) before := by
  refine .identifier_bind fun name after passes => ?_
  refine .narrow ?_ among (narrows name after passes)
  refine .eat_bind apart (fun inside _ => ?_) ?_
  · refine .identifier_bind fun method _ _ => ?_
    refine .silent_bind (.lookup? name) fun entry _ _ => ?_
    cases entry <;> exact .pure rfl
  · exact .silent_bind .get fun _ _ _ => .pure rfl

/-- What a call names is at least one token. -/
theorem callee_within {before after : State} {function : String} {receiver : Option Place} {bound : Nat}
    (ran : Parser.callee.run before = .ok (function, receiver) after)
    (within : before.cursor.rest.length < bound + 1) : after.cursor.rest.length < bound := by
  obtain ⟨callee, reads, -, -⟩ := callee_eq_ok ran
  cases callee <;> exact (Passes.of_reads reads).within_of_cons within

section Calls

variable {expression : Parser Jack.Expression} {bound budget : Nat}
  (value : Localizes expression Expression.phrase continuesValue bound)

include value

theorem tracks_arguments {texts : Texts} {before : State} (enough : bound ≤ budget)
    (within : before.cursor.rest.length < bound) :
    Tracks (argumentsPhrase ++ (Phrase.symbol ')' ++ texts)) (Parser.arguments expression budget)
      (fun _ => Phrase.symbol ')' ++ texts) before := by
  rw [arguments_append]
  refine .isNext_bind (fun closes => ?_) fun goesOn => ?_
  · refine .skip ?_ (.pure rfl)
    rw [Texts.separated_append]
    exact (avoids_value fun _ => rfl).absent closes
  · refine .take (Texts.absent_symbol goesOn) ?_
    exact value.commaSeparated rfl enough (Texts.avoids_symbol.mpr rfl) within

/-- **Calls.**  Of the texts behind the first name those matter that begin with the token that is next
there. -/
theorem tracks_call {texts behind : Texts} {before : State} (enough : bound ≤ budget)
    (within : before.cursor.rest.length < bound + 1)
    (among : ∀ text ∈ behindOwner (argumentsPhrase.enclosed '(' ')' ++ texts), text ∈ behind)
    (narrows : ∀ name after, Passes before [.identifier name] after →
      ∀ text ∈ behind, text.head? = after.cursor.peek? →
        text ∈ behindOwner (argumentsPhrase.enclosed '(' ')' ++ texts)) :
    Tracks (Phrase.name ++ behind) (Parser.call expression budget) (fun _ => texts) before := by
  have apart : (argumentsPhrase.enclosed '(' ')' ++ texts).Avoids (· == .symbol '.') := by
    rw [Texts.enclosed_append]
    exact Texts.avoids_symbol.mpr rfl
  refine (tracks_callee apart among narrows).bind fun ⟨_, _⟩ _ _ ran _ => ?_
  rw [Texts.enclosed_append]
  refine .expect_bind fun _ opened => ?_
  have inside := opened.within (callee_within ran within)
  refine (tracks_arguments value enough inside).bind fun _ _ _ _ _ => ?_
  exact .expect_bind fun _ _ => .pure rfl

end Calls

/-! ## Operands -/

section Operands

variable {texts : Texts} {before : State} {budget : Nat}

/-- One token that is an operand by itself. -/
theorem tracks_constant {token : Token} {result : Jack.Term} (found : before.cursor.peek? = some token)
    (alone : behindFirst texts token = some texts) :
    Tracks (Term.phrase ++ texts) (do advance; return result : Parser Jack.Term) (fun _ => texts)
      before :=
  .advance_bind found (begins_term alone) fun _ _ => .pure rfl

/-- A string constant beyond its limits is another fault. -/
theorem tracks_stringConstant {content : String} (found : before.cursor.peek? = some (.text content)) :
    Tracks (Term.phrase ++ texts) (stringConstant content) (fun _ => texts) before := by
  unfold stringConstant
  split
  · exact .throw fun _ => Fault.noConfusion
  · split
    · exact tracks_constant found rfl
    · exact .throw fun _ => Fault.noConfusion

/-- A name that is next begins the operand. -/
theorem narrow_name {α : Type} {parser : Parser α} {left : α → Texts} {name : String}
    (found : before.cursor.peek? = some (.identifier name))
    (tracks : Tracks (Phrase.name ++ behindName texts) parser left before) :
    Tracks (Term.phrase ++ texts) parser left before := by
  refine tracks.narrow ?_ fun text member seen => ?_
  · rintro _ ⟨name, behind, member, rfl⟩
    exact (begins_term rfl behind).mpr member
  · obtain ⟨others, rfl⟩ := List.head?_eq_some_iff.mp (seen.trans found)
    exact ⟨name, others, (begins_term rfl others).mp member, rfl⟩

/-- A bracket behind the name leads to an index. -/
theorem bracket_mem_behindName (avoids : texts.Avoids opensTail) (text : List Token) :
    .symbol '[' :: text ∈ behindName texts ↔ text ∈ Expression.phrase ++ (Phrase.symbol ']' ++ texts) := by
  have notBehind : .symbol '[' :: text ∉ texts := avoids.not_mem rfl
  simp [behindName, behindOwner, Texts.enclosed_append, notBehind]

/-- Where nothing goes on with it, a name is an operand by itself. -/
theorem tracks_behindName {α : Type} {parser : Parser α} {left : α → Texts}
    (tracks : Tracks texts parser left before)
    (ends : ∀ c, before.cursor.peek? = some (.symbol c) → c ≠ '[' ∧ c ≠ '(' ∧ c ≠ '.') :
    Tracks (behindName texts) parser left before := by
  rw [behindName, behindOwner, Texts.enclosed_append, Texts.enclosed_append]
  refine .skip (Texts.absent_symbol fun found => (ends _ found).1 rfl) (.skip ?_ tracks)
  rintro text (member | member)
  · exact Texts.absent_symbol (fun found => (ends _ found).2.2 rfl) text member
  · exact Texts.absent_symbol (fun found => (ends _ found).2.1 rfl) text member

/-- A name with nothing behind it that goes on with the operand. -/
theorem tracks_variable {name : String} (found : before.cursor.peek? = some (.identifier name))
    (ends : ∀ c, before.cursor.peekAt? 1 = some (.symbol c) → c ≠ '[' ∧ c ≠ '(' ∧ c ≠ '.') :
    Tracks (Term.phrase ++ texts) (do advance; return .variable (← place name) : Parser Jack.Term)
      (fun _ => texts) before := by
  refine .advance_bind found (begins_term rfl) fun named passes => ?_
  rw [passes.peekAt?_one] at ends
  exact tracks_behindName (.silent_bind (.place name) fun _ _ _ => .pure rfl) ends

/-- Where no operand begins. -/
theorem absent_term (nothing : ∀ token, before.cursor.peek? = some token →
    behindFirst texts token = none) :
    ∀ text ∈ Term.phrase ++ texts, text.head? ≠ before.cursor.peek? := by
  intro text member seen
  cases text with
  | nil => exact nil_not_mem_term member
  | cons token text =>
      obtain ⟨behind, next, -⟩ := cons_mem_term.mp member
      exact Option.some_ne_none _ (next.symm.trans (nothing token seen.symm))

/-! ### Operands with expressions in them -/

section Inner

variable {expression : Parser Jack.Expression} {bound : Nat}
  (value : Localizes expression Expression.phrase continuesValue bound)
  (within : before.cursor.rest.length < bound + 1)

include value within

/-- A name with an index behind it. -/
theorem tracks_element {name : String} (avoids : texts.Avoids opensTail)
    (found : before.cursor.peek? = some (.identifier name))
    (bracket : before.cursor.peekAt? 1 = some (.symbol '[')) :
    Tracks (Term.phrase ++ texts)
      (do
        advance
        advance
        let array ← place name
        let index ← expression
        expectSymbol ']'
        return .element array index : Parser Jack.Term)
      (fun _ => texts) before := by
  refine .advance_bind found (begins_term rfl) fun named passes => ?_
  rw [passes.peekAt?_one] at bracket
  refine .advance_bind bracket (bracket_mem_behindName avoids) fun opened inBrackets => ?_
  refine .silent_bind (.place name) fun array declared same => ?_
  have inside := inBrackets.within (passes.within_of_cons within)
  rw [← same] at inside
  refine (value (Texts.avoids_symbol.mpr rfl) inside).bind fun _ _ _ _ _ => ?_
  exact .expect_bind fun _ _ => .pure rfl

/-- A name with a parenthesis or a dot behind it. -/
theorem tracks_operandCall {name : String} {c : Char} (enough : bound ≤ budget)
    (avoids : texts.Avoids opensTail)
    (found : before.cursor.peek? = some (.identifier name))
    (opening : before.cursor.peekAt? 1 = some (.symbol c)) (opens : opensTail (.symbol c) = true)
    (noBracket : c ≠ '[') :
    Tracks (Term.phrase ++ texts) (do return (← Parser.call expression budget).term) (fun _ => texts)
      before := by
  have among : ∀ text ∈ behindOwner (argumentsPhrase.enclosed '(' ')' ++ texts),
      text ∈ behindName texts := fun _ member => .inr (.inl member)
  refine narrow_name found ((tracks_call value enough within among ?_).bind fun _ _ _ _ _ => .pure rfl)
  intro _ after passes text member seen
  rw [← passes.peekAt?_one, opening] at seen
  obtain ⟨others, rfl⟩ := List.head?_eq_some_iff.mp seen
  rw [behindName, Texts.mem_union, Texts.mem_union, Texts.enclosed_append, Texts.cons_mem_symbol]
    at member
  rcases member with ⟨same, -⟩ | member | member
  · exact absurd (Token.symbol.inj same) noBracket
  · exact member
  · exact absurd member (avoids.not_mem opens)

/-- An expression in parentheses. -/
theorem tracks_group (found : before.cursor.peek? = some (.symbol '(')) :
    Tracks (Term.phrase ++ texts)
      (do
        advance
        let inner ← expression
        expectSymbol ')'
        return .group inner : Parser Jack.Term)
      (fun _ => texts) before := by
  refine .advance_bind found (begins_term rfl) fun _ opened => ?_
  refine (value (Texts.avoids_symbol.mpr rfl) (opened.within_of_cons within)).bind fun _ _ _ _ _ => ?_
  exact .expect_bind fun _ _ => .pure rfl

end Inner

end Operands

/-- **Operands.** -/
theorem localizes_term (budget : Nat) : Localizes (Parser.term budget) Term.phrase opensTail budget := by
  induction budget with
  | zero =>
      intro texts before avoids within
      exact absurd within (Nat.not_lt_zero _)
  | succ budget operand =>
      have value := localizes_expression operand (Nat.le_refl budget)
      intro texts before avoids within
      refine .peek_bind ?_
      split
      · rename_i number found
        exact tracks_constant found rfl
      · rename_i content found
        exact tracks_stringConstant found
      · rename_i found
        exact tracks_constant found rfl
      · rename_i found
        exact tracks_constant found rfl
      · rename_i found
        exact tracks_constant found rfl
      · rename_i found
        exact tracks_constant found rfl
      · -- a name: what follows tells an element from a call and from a variable
        rename_i name found
        refine .peekAt_bind 1 ?_
        split
        · rename_i bracket
          exact tracks_element value within avoids found bracket
        · rename_i opening
          exact tracks_operandCall value within (Nat.le_refl _) avoids found opening rfl (by decide)
        · rename_i opening
          exact tracks_operandCall value within (Nat.le_refl _) avoids found opening rfl (by decide)
        · rename_i noBracket noCall noMember
          refine tracks_variable found fun c next => ⟨?_, ?_, ?_⟩
          · rintro rfl
            exact noBracket next
          · rintro rfl
            exact noCall next
          · rintro rfl
            exact noMember next
      · rename_i found
        exact tracks_group value within found
      · rename_i c noGroup found
        have next := behindFirst_symbol texts noGroup
        split
        · rename_i operator isOperator
          rw [isOperator] at next
          refine .advance_bind found (begins_term next) fun _ passes => ?_
          refine (operand avoids (passes.within_of_cons within)).bind fun _ _ _ _ _ => .pure rfl
        · rename_i noOperator
          rw [noOperator] at next
          refine .stop _ (absent_term fun token seen => ?_)
          obtain rfl := Option.some.inj (found.symm.trans seen)
          exact next
      -- no other token begins an operand
      · rename_i noInteger noText noTrue noFalse noNull noThis noName noGroup noSymbol
        refine .stop _ (absent_term fun token seen => ?_)
        unfold behindFirst
        split
        · exact (noInteger _ seen).elim
        · exact (noText _ seen).elim
        · exact (noTrue seen).elim
        · exact (noFalse seen).elim
        · exact (noNull seen).elim
        · exact (noThis seen).elim
        · exact (noName _ seen).elim
        · exact (noGroup seen).elim
        · exact (noSymbol _ seen).elim
        · rfl

/-- **Expressions.** -/
theorem localizes_value (budget : Nat) :
    Localizes (Parser.value budget) Expression.phrase continuesValue budget :=
  localizes_expression (localizes_term budget) (Nat.le_refl budget)

end JackToolchain.Jack.Written

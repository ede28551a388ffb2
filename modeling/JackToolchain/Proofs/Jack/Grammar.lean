import JackToolchain.Jack.Session
import JackToolchain.Proofs.Jack.Brackets
import JackToolchain.Proofs.Jack.ClassReading
import JackToolchain.Proofs.Jack.ClassRecognition
import JackToolchain.Proofs.Jack.UniqueReading
import JackToolchain.Proofs.Token.Vocabulary

/-!
# The grammar

What is compiled is exactly what the grammar derives, once names are declared and string constants
are within the limits.

## Main Statements

* `identifier_mem_statementTokens` — every name that statements use is spelled in them.
* `admissible_iff` — declared names, for the symbol tables of the compiler and for the written class.
* `compiles_to_resolved`, `compile_to_resolved` — the class that is compiled is a derivation with its names
  resolved.
* `compiles_of_derivation` — every derivation is compiled to that.
* `class_accepted_iff_derivable` — acceptance.

## Design Notes

A method's symbol table holds `this` besides the declared names.  No text has a name with that spelling,
since it is reserved; this is the only place where it matters that the tokens are those of a text.
-/

namespace JackToolchain.Jack.Written

/-! ## Spelled names -/

mutual

theorem Term.identifier_mem_tokens (term : Term) {name : String} (used : name ∈ term.names) :
    .identifier name ∈ term.tokens := by
  cases term with
  | integer | string | true_ | false_ | null | this => exact absurd used List.not_mem_nil
  | «variable» other =>
      obtain rfl := List.mem_singleton.mp used
      exact List.mem_singleton.mpr rfl
  | element array index =>
      rw [Term.tokens]
      rcases List.mem_cons.mp used with rfl | inside
      · exact List.mem_cons_self
      · exact List.mem_cons_of_mem _ (List.mem_cons_of_mem _
          (List.mem_append_left _ (index.identifier_mem_tokens inside)))
  | call callee arguments =>
      exact List.mem_append_right _ (List.mem_cons_of_mem _
        (List.mem_append_left _ (identifier_mem_argumentTokens arguments used)))
  | group inner =>
      exact List.mem_cons_of_mem _ (List.mem_append_left _ (inner.identifier_mem_tokens used))
  | unary operator operand => exact List.mem_cons_of_mem _ (operand.identifier_mem_tokens used)

theorem Expression.identifier_mem_tokens (expression : Expression) {name : String}
    (used : name ∈ expression.names) : .identifier name ∈ expression.tokens := by
  cases expression with
  | chain first rest =>
      rcases List.mem_append.mp used with inFront | behind
      · exact List.mem_append_left _ (first.identifier_mem_tokens inFront)
      · exact List.mem_append_right _ (identifier_mem_restTokens rest behind)

theorem identifier_mem_restTokens (rest : List (BinaryOperator × Term)) {name : String}
    (used : name ∈ restNames rest) : .identifier name ∈ restTokens rest := by
  cases rest with
  | nil => exact absurd used List.not_mem_nil
  | cons step rest =>
      obtain ⟨operator, operand⟩ := step
      rw [restTokens]
      rcases List.mem_append.mp used with inFront | behind
      · exact List.mem_cons_of_mem _
          (List.mem_append_left _ (operand.identifier_mem_tokens inFront))
      · exact List.mem_cons_of_mem _
          (List.mem_append_right _ (identifier_mem_restTokens rest behind))

theorem identifier_mem_argumentTokens (arguments : List Expression) {name : String}
    (used : name ∈ argumentNames arguments) : .identifier name ∈ argumentTokens arguments := by
  cases arguments with
  | nil => exact absurd used List.not_mem_nil
  | cons argument rest =>
      rcases List.mem_append.mp used with inFront | behind
      · exact List.mem_append_left _ (argument.identifier_mem_tokens inFront)
      · exact List.mem_append_right _ (identifier_mem_furtherTokens rest behind)

theorem identifier_mem_furtherTokens (arguments : List Expression) {name : String}
    (used : name ∈ argumentNames arguments) : .identifier name ∈ furtherTokens arguments := by
  cases arguments with
  | nil => exact absurd used List.not_mem_nil
  | cons argument rest =>
      rw [furtherTokens]
      rcases List.mem_append.mp used with inFront | behind
      · exact List.mem_cons_of_mem _
          (List.mem_append_left _ (argument.identifier_mem_tokens inFront))
      · exact List.mem_cons_of_mem _
          (List.mem_append_right _ (identifier_mem_furtherTokens rest behind))

end

theorem identifier_mem_conditionTokens {condition : Expression} {name : String}
    (used : name ∈ condition.names) : .identifier name ∈ conditionTokens condition :=
  List.mem_cons_of_mem _ (List.mem_append_left _ (condition.identifier_mem_tokens used))

theorem mem_braced {token : Token} {inner : List Token} (inside : token ∈ inner) :
    token ∈ braced inner :=
  List.mem_cons_of_mem _ (List.mem_append_left _ inside)

mutual

theorem Statement.identifier_mem_tokens (statement : Statement) {name : String}
    (used : name ∈ statement.names) : .identifier name ∈ statement.tokens := by
  cases statement with
  | assign target value =>
      rw [Statement.tokens]
      rcases List.mem_cons.mp used with rfl | inside
      · exact List.mem_cons_of_mem _ List.mem_cons_self
      · simp [value.identifier_mem_tokens inside]
  | assignElement array index value =>
      rw [Statement.tokens]
      rcases List.mem_cons.mp used with rfl | inside
      · exact List.mem_cons_of_mem _ List.mem_cons_self
      · rcases List.mem_append.mp inside with inIndex | inValue
        · simp [index.identifier_mem_tokens inIndex]
        · simp [value.identifier_mem_tokens inValue]
  | branch condition body =>
      rw [Statement.tokens]
      rcases List.mem_append.mp used with tested | inside
      · simp [identifier_mem_conditionTokens tested]
      · simp [mem_braced (identifier_mem_statementTokens body inside)]
  | choice condition whenTrue whenFalse =>
      rw [Statement.tokens]
      rcases List.mem_append.mp used with tested | inside
      · simp [identifier_mem_conditionTokens tested]
      · rcases List.mem_append.mp inside with inFirst | inSecond
        · simp [mem_braced (identifier_mem_statementTokens whenTrue inFirst)]
        · simp [mem_braced (identifier_mem_statementTokens whenFalse inSecond)]
  | loop condition body =>
      rw [Statement.tokens]
      rcases List.mem_append.mp used with tested | inside
      · simp [identifier_mem_conditionTokens tested]
      · simp [mem_braced (identifier_mem_statementTokens body inside)]
  | run callee arguments =>
      rw [Statement.tokens]
      simp [(Term.call callee arguments).identifier_mem_tokens used]
  | leave value =>
      cases value with
      | none => exact absurd used List.not_mem_nil
      | some value =>
          rw [Statement.tokens, resultTokens]
          simp [value.identifier_mem_tokens used]

/-- **Every name that statements use is spelled in them.** -/
theorem identifier_mem_statementTokens (statements : List Statement) {name : String}
    (used : name ∈ statementNames statements) : .identifier name ∈ statementTokens statements := by
  cases statements with
  | nil => exact absurd used List.not_mem_nil
  | cons statement rest =>
      rcases List.mem_append.mp used with inFront | behind
      · exact List.mem_append_left _ (statement.identifier_mem_tokens inFront)
      · exact List.mem_append_right _ (identifier_mem_statementTokens rest behind)

end

/-! ## Declared names -/

/-- The tokens of a subroutine of a class are tokens of the class. -/
theorem mem_tokens_of_body {cls : Class} {subroutine : Subroutine}
    (member : subroutine ∈ cls.subroutines) {token : Token}
    (inside : token ∈ statementTokens subroutine.body) : token ∈ cls.tokens := by
  have inSubroutine : token ∈ subroutine.tokens := by
    rw [Subroutine.tokens]
    simp [inside]
  have inSubroutines : token ∈ cls.subroutines.flatMap (·.tokens) :=
    List.mem_flatMap.mpr ⟨subroutine, member, inSubroutine⟩
  rw [Class.tokens]
  simp only [List.mem_cons, List.mem_append]
  exact .inr (.inr (.inr (.inr (.inl inSubroutines))))

/-- **Declared names.**  In a class whose tokens are those of a text, the names that the symbol tables of
the subroutines know are the declared ones. -/
theorem admissible_iff {cls : Class} (proper : ∀ token ∈ cls.tokens, token.IsProper) :
    (∀ s ∈ cls.subroutines, Admissible (s.table cls.name cls.table) (statementNames s.body)
      (statementStrings s.body)) ↔ cls.Declared ∧ cls.WithinLimits := by
  constructor
  · intro admissible
    refine ⟨fun s member name used => ?_, fun s member => (admissible s member).limits⟩
    have isName : IsName name :=
      proper _ (mem_tokens_of_body member (identifier_mem_statementTokens s.body used))
    exact declared_of_contains ((admissible s member).declared name used)
      (isName.unreserved .this)
  · rintro ⟨declared, limits⟩ s member
    refine ⟨fun name used => ?_, limits s member⟩
    rw [Subroutine.contains_table, Class.clear_table, Class.contains_table]
    rcases declared s member name used with inside | ofClass
    · exact .inl inside
    · exact .inr (.inl ofClass)

/-! ## Acceptance -/

section Acceptance

variable {session : Session} {source : String} {tokens : List Located}

/-- **What is compiled** is a derivation with its names resolved. -/
theorem compiles_to_resolved {compiled : CompiledClass}
    (accepted : (session.compileTokens tokens).1 = .ok compiled) :
    ∃ cls : Class, tokens.map (·.token) = cls.tokens ∧ cls.ReadsOn ∧
      (∀ s ∈ cls.subroutines, Admissible (s.table cls.name cls.table) (statementNames s.body)
        (statementStrings s.body)) ∧
      compiled = ⟨cls.name, (cls.resolved session.nextLabel).code session.library⟩ ∧
      (session.compileTokens tokens).2 =
        { session with nextLabel := session.nextLabel + cls.branchings } := by
  cases ran : (Parser.class_ (readingBudget tokens)).run (.ofTokens tokens session.nextLabel) with
  | error fault state =>
      rw [Session.compileTokens, ran] at accepted
      exact absurd accepted (by rintro ⟨⟩)
  | ok result after =>
      obtain ⟨cls, spelled, readsOn, admissible, rfl, numbered⟩ := recognizes_class rfl ran
      rw [Session.compileTokens, ran] at accepted ⊢
      obtain rfl := Except.ok.inj accepted
      refine ⟨cls, spelled, readsOn, admissible, rfl, ?_⟩
      show ({ session with nextLabel := after.nextLabel } : Session) = _
      rw [numbered]
      rfl

/-- The class in a text that is accepted. -/
theorem compile_to_resolved {compiled : CompiledClass}
    (accepted : (session.compile source).1 = .ok compiled) :
    ∃ tokens, ∃ cls : Class, tokenize source = .ok tokens ∧ tokens.map (·.token) = cls.tokens ∧
      cls.ReadsOn ∧ (∀ s ∈ cls.subroutines, Admissible (s.table cls.name cls.table) (statementNames s.body)
        (statementStrings s.body)) ∧
      compiled = ⟨cls.name, (cls.resolved session.nextLabel).code session.library⟩ ∧
      (session.compile source).2 =
        { session with nextLabel := session.nextLabel + cls.branchings } := by
  cases read : tokenize source with
  | error error =>
      rw [Session.compile, read] at accepted
      exact absurd accepted (by rintro ⟨⟩)
  | ok tokens =>
      have session_compile : session.compile source = session.compileTokens tokens := by
        rw [Session.compile, read]
      rw [session_compile] at accepted ⊢
      obtain ⟨cls, resolved⟩ := compiles_to_resolved accepted
      exact ⟨tokens, cls, rfl, resolved⟩

/-- **The class in a text.**  Its tokens are those of the text. -/
def Class.IsWrittenIn (cls : Class) (source : String) : Prop :=
  ∃ tokens, tokenize source = .ok tokens ∧ tokens.map (·.token) = cls.tokens

/-- A text that is compiled holds a class… -/
theorem exists_isWrittenIn {compiled : CompiledClass}
    (accepted : (session.compile source).1 = .ok compiled) :
    ∃ cls : Class, cls.IsWrittenIn source := by
  obtain ⟨tokens, cls, read, spelled, -⟩ := compile_to_resolved accepted
  exact ⟨cls, tokens, read, spelled⟩

/-- …and no text holds two. -/
theorem Class.IsWrittenIn.unique {cls other : Class} (written : cls.IsWrittenIn source)
    (writtenToo : other.IsWrittenIn source) : cls = other := by
  obtain ⟨tokens, read, spelled⟩ := written
  obtain ⟨others, readToo, spelledToo⟩ := writtenToo
  obtain rfl : tokens = others := Except.ok.inj (read.symm.trans readToo)
  exact Class.tokens_injective (spelled.symm.trans spelledToo)

/-- So it is the class in the text that is compiled. -/
theorem Class.IsWrittenIn.resolved_of_accepted {cls : Class} (written : cls.IsWrittenIn source)
    {compiled : CompiledClass} (accepted : (session.compile source).1 = .ok compiled) :
    cls.ReadsOn ∧
      (∀ s ∈ cls.subroutines, Admissible (s.table cls.name cls.table) (statementNames s.body)
        (statementStrings s.body)) ∧
      compiled = ⟨cls.name, (cls.resolved session.nextLabel).code session.library⟩ ∧
      (session.compile source).2 =
        { session with nextLabel := session.nextLabel + cls.branchings } := by
  obtain ⟨tokens, other, read, spelled, resolved⟩ := compile_to_resolved accepted
  obtain rfl : cls = other := written.unique ⟨tokens, read, spelled⟩
  exact resolved

/-- **A derivation is compiled** to its class with the names resolved. -/
theorem compiles_of_derivation {cls : Class} (session : Session)
    (spelled : tokens.map (·.token) = cls.tokens) (proper : ∀ token ∈ cls.tokens, token.IsProper)
    (readsOn : cls.ReadsOn) (declared : cls.Declared) (limits : cls.WithinLimits) :
    ∃ next, session.compileTokens tokens =
      (.ok ⟨cls.name, (cls.resolved session.nextLabel).code session.library⟩,
        { session with nextLabel := next }) := by
  obtain ⟨after, ran⟩ : ∃ after, (Parser.class_ (readingBudget tokens)).run
      (.ofTokens tokens session.nextLabel) = .ok (cls.resolved session.nextLabel) after :=
    read_class cls spelled rfl readsOn ((admissible_iff proper).mpr ⟨declared, limits⟩)
      (Nat.lt_succ_self _)
  refine ⟨after.nextLabel, ?_⟩
  rw [Session.compileTokens, ran]
  rfl

/-- **Acceptance.**  The tokens of a text are compiled exactly if the grammar derives them from a class,
every name that is used as a variable or assigned to is declared in its subroutine or in the class, and
every string constant is within the limits, provided that no declaration of local variables but the last is
counted as one of no names.  Where no counter is beyond its bits, that is always so.  In particular the
brackets of what is compiled are balanced. -/
theorem class_accepted_iff_derivable (session : Session) (read : tokenize source = .ok tokens) :
    ((∃ compiled, (session.compileTokens tokens).1 = .ok compiled) ↔
      ∃ cls : Class, tokens.map (·.token) = cls.tokens ∧ cls.ReadsOn ∧ cls.Declared ∧
        cls.WithinLimits) ∧
    ((∀ cls : Class, tokens.map (·.token) = cls.tokens → cls.IsCounted) →
      ((∃ compiled, (session.compileTokens tokens).1 = .ok compiled) ↔
        ∃ cls : Class, tokens.map (·.token) = cls.tokens ∧ cls.Declared ∧ cls.WithinLimits)) ∧
    ((∃ compiled, (session.compileTokens tokens).1 = .ok compiled) →
      Balanced (tokens.map (·.token))) := by
  have proper {cls : Class} (spelled : tokens.map (·.token) = cls.tokens) :
      ∀ token ∈ cls.tokens, token.IsProper := by
    rw [← spelled]
    exact List.forall_mem_map.mpr (isProper_of_tokenize read)
  have acceptance : (∃ compiled, (session.compileTokens tokens).1 = .ok compiled) ↔
      ∃ cls : Class, tokens.map (·.token) = cls.tokens ∧ cls.ReadsOn ∧ cls.Declared ∧
        cls.WithinLimits := by
    constructor
    · rintro ⟨compiled, accepted⟩
      obtain ⟨cls, spelled, readsOn, admissible, -⟩ := compiles_to_resolved accepted
      exact ⟨cls, spelled, readsOn, (admissible_iff (proper spelled)).mp admissible⟩
    · rintro ⟨cls, spelled, readsOn, declared, limits⟩
      obtain ⟨next, compiles⟩ :=
        compiles_of_derivation session spelled (proper spelled) readsOn declared limits
      exact ⟨_, congrArg Prod.fst compiles⟩
  refine ⟨acceptance, fun isCounted => acceptance.trans ⟨?_, ?_⟩, ?_⟩
  · rintro ⟨cls, spelled, -, within⟩
    exact ⟨cls, spelled, within⟩
  · rintro ⟨cls, spelled, within⟩
    exact ⟨cls, spelled, (isCounted cls spelled).readsOn, within⟩
  · rintro ⟨compiled, accepted⟩
    obtain ⟨cls, spelled, -⟩ := compiles_to_resolved accepted
    rw [spelled]
    exact cls.balanced_tokens

end Acceptance

/-- A class whose only function returns its parameter, in parentheses twice. -/
private def nested : Class where
  name := "A"
  shared := []
  subroutines := [{
    kind := .function
    returns := some .int
    name := "f"
    parameters := [⟨.int, "x"⟩]
    locals := []
    body := [.leave (some (.chain (.group (.chain (.group (.chain (.variable "x") [])) [])) []))] }]

/-- Its text. -/
private def nestedSource : String := "class A \x7b function int f(int x) \x7b return ((x)); \x7d \x7d"

theorem nested_parentheses_accepted : ∃ tokens, tokenize nestedSource = .ok tokens ∧
    (∃ compiled, ((⟨{}, 0⟩ : Session).compileTokens tokens).1 = .ok compiled) ∧
    Balanced (tokens.map (·.token)) := by
  have read : tokenize nestedSource = .ok
      [⟨.keyword .class_, 1⟩, ⟨.identifier "A", 1⟩, ⟨.symbol '{', 1⟩, ⟨.keyword .function, 1⟩,
        ⟨.keyword .int, 1⟩, ⟨.identifier "f", 1⟩, ⟨.symbol '(', 1⟩, ⟨.keyword .int, 1⟩,
        ⟨.identifier "x", 1⟩, ⟨.symbol ')', 1⟩, ⟨.symbol '{', 1⟩, ⟨.keyword .return_, 1⟩,
        ⟨.symbol '(', 1⟩, ⟨.symbol '(', 1⟩, ⟨.identifier "x", 1⟩, ⟨.symbol ')', 1⟩,
        ⟨.symbol ')', 1⟩, ⟨.symbol ';', 1⟩, ⟨.symbol '}', 1⟩, ⟨.symbol '}', 1⟩] :=
    (tokenize_ofList _).trans rfl
  have acceptance := class_accepted_iff_derivable ⟨{}, 0⟩ read
  have declared : nested.Declared := by
    intro s member name used
    obtain rfl := List.mem_singleton.mp member
    obtain rfl := List.mem_singleton.mp used
    exact .inl List.mem_cons_self
  have limits : nested.WithinLimits := by
    intro s member content used
    obtain rfl := List.mem_singleton.mp member
    exact absurd used List.not_mem_nil
  have readsOn : nested.ReadsOn := by
    intro s member
    obtain rfl := List.mem_singleton.mp member
    exact List.forall_mem_nil _
  have accepted := acceptance.1.mpr ⟨nested, rfl, readsOn, declared, limits⟩
  exact ⟨_, read, accepted, acceptance.2.2 accepted⟩

end JackToolchain.Jack.Written

import JackToolchain.Proofs.Jack.StatementResiduals

/-!
# Errors in classes

Every parser of declarations, subroutines and classes stops at the first token that none of them can have
there.

## Main Definitions

* `declaresClassVariables`, `beginsSubroutine` — the words by which declarations and subroutines begin.
* `LocalsReadOn` — no declaration of local variables in front of another is counted as one of no names.

## Main Statements

* `localizes_declarations`, `localizes_classVariables`, `tracks_locals` — declarations.
* `tracks_subroutine` — subroutines.
* `tracks_class` — a class and the end of the text behind it.

## Design Notes

Behind a declaration of local variables that is counted as one of no names, no other one is looked for.  So
there a word that begins one is reported, although the grammar has it; `LocalsReadOn` excludes that, and nothing else.
-/

namespace JackToolchain.Jack.Written

open JackToolchain.Jack.Parser

/-- The words that declare statics and fields. -/
def declaresClassVariables : Token → Bool
  | .keyword .static_ | .keyword .field => true
  | _ => false

/-- The words that begin subroutines. -/
def beginsSubroutine : Token → Bool
  | .keyword .constructor_ | .keyword .function | .keyword .method => true
  | _ => false

/-- **Declarations behind which another one is looked for**: where a declaration of local variables stands in front of
another one, it is not counted as one of no names. -/
def LocalsReadOn (tokens : List Token) : Prop :=
  ∀ group : Variables, .keyword .var :: group.tokens ++ [.keyword .var] <:+: tokens → counted group.names.length ≠ 0

/-- A text with few tokens has no declaration of so many names. -/
theorem localsReadOn_of_length {tokens : List Token} (few : tokens.length ≤ largestCount) : LocalsReadOn tokens := by
  intro group stands
  have inside : group.names.length ≤ group.tokens.length := by
    simp [Variables.names, Variables.tokens, List.map_const']
    omega
  have fits := stands.length_le
  rw [List.length_append, List.length_cons] at fits
  rw [counted_of_le (by omega)]
  exact Nat.succ_ne_zero group.more.length

theorem LocalsReadOn.mono {tokens part : List Token} (readsOn : LocalsReadOn tokens)
    (inside : part <:+: tokens) : LocalsReadOn part :=
  fun group stands => readsOn group (stands.trans inside)

theorem LocalsReadOn.behind {before after : State} {read : List Token}
    (readsOn : LocalsReadOn (before.cursor.rest.map (·.token))) (passes : Passes before read after) :
    LocalsReadOn (after.cursor.rest.map (·.token)) := by
  obtain ⟨front, unread, -⟩ := passes.unread
  refine readsOn.mono (List.IsSuffix.isInfix ?_)
  rw [unread, List.map_append]
  exact List.suffix_append _ _

/-! ## Productions -/

section Productions

variable {texts : Texts} {text : List Token}

theorem variables_append :
    Variables.phrase ++ texts = typePhrase ++ (Phrase.name.separated ++ (Phrase.symbol ';' ++ texts)) := by
  ext text
  constructor
  · rintro ⟨⟨type, first, more⟩, behind, member, rfl⟩
    refine ⟨type, _, ⟨(first, more), _, ⟨(), behind, member, rfl⟩, rfl⟩, ?_⟩
    simp [Variables.phrase, Variables.tokens, typePhrase, Phrase.separated, Phrase.further, Phrase.name,
      Phrase.symbol, Phrase.single]
  · rintro ⟨type, _, ⟨⟨first, more⟩, _, ⟨-, behind, member, rfl⟩, rfl⟩, rfl⟩
    refine ⟨⟨type, first, more⟩, behind, member, ?_⟩
    simp [Variables.phrase, Variables.tokens, typePhrase, Phrase.separated, Phrase.further, Phrase.name,
      Phrase.symbol, Phrase.single]

theorem classVariables_append :
    ClassVariables.phrase ++ texts =
      (Phrase.keyword .static_ ++ (Variables.phrase ++ texts)) ∪
        (Phrase.keyword .field ++ (Variables.phrase ++ texts)) := by
  ext text
  constructor
  · rintro ⟨⟨areFields, group⟩, behind, member, rfl⟩
    cases areFields with
    | false => exact .inl ⟨(), _, ⟨group, behind, member, rfl⟩, rfl⟩
    | true => exact .inr ⟨(), _, ⟨group, behind, member, rfl⟩, rfl⟩
  · rintro (⟨-, _, ⟨group, behind, member, rfl⟩, rfl⟩ | ⟨-, _, ⟨group, behind, member, rfl⟩, rfl⟩)
    · exact ⟨⟨false, group⟩, behind, member, rfl⟩
    · exact ⟨⟨true, group⟩, behind, member, rfl⟩

theorem classVariables_repeated :
    ClassVariables.phrase.repeated ++ texts =
      (Phrase.keyword .static_ ++ (Variables.phrase ++ (ClassVariables.phrase.repeated ++ texts))) ∪
        ((Phrase.keyword .field ++ (Variables.phrase ++ (ClassVariables.phrase.repeated ++ texts))) ∪
          texts) :=
  Texts.repeated_append.trans (by rw [classVariables_append, Texts.union_assoc])

theorem locals_append :
    localsPhrase ++ texts = Phrase.keyword .var ++ (Variables.phrase ++ texts) := by
  ext text
  constructor
  · rintro ⟨group, behind, member, rfl⟩
    exact ⟨(), _, ⟨group, behind, member, rfl⟩, rfl⟩
  · rintro ⟨-, _, ⟨group, behind, member, rfl⟩, rfl⟩
    exact ⟨group, behind, member, rfl⟩

theorem locals_repeated :
    localsPhrase.repeated ++ texts =
      (Phrase.keyword .var ++ (Variables.phrase ++ (localsPhrase.repeated ++ texts))) ∪ texts :=
  Texts.repeated_append.trans (by rw [locals_append])

theorem parameter_append : Parameter.phrase ++ texts = typePhrase ++ (Phrase.name ++ texts) := by
  ext text
  constructor
  · rintro ⟨⟨type, name⟩, behind, member, rfl⟩
    exact ⟨type, _, ⟨name, behind, member, rfl⟩, rfl⟩
  · rintro ⟨type, _, ⟨name, behind, member, rfl⟩, rfl⟩
    exact ⟨⟨type, name⟩, behind, member, rfl⟩

theorem parameters_append :
    parametersPhrase ++ texts = (Parameter.phrase.separated ++ texts) ∪ texts := by
  ext text
  constructor
  · rintro ⟨parameters, behind, member, rfl⟩
    cases parameters with
    | nil => exact .inr member
    | cons first others => exact .inl ⟨(first, others), behind, member, rfl⟩
  · rintro (⟨⟨first, others⟩, behind, member, rfl⟩ | member)
    · exact ⟨first :: others, behind, member, rfl⟩
    · exact ⟨[], text, member, rfl⟩

theorem mem_subroutine {kind : SubroutineKind} :
    text ∈ Phrase.keyword (kindKeyword kind) ++ behindKind texts ↔
      ∃ subroutine : Subroutine, subroutine.kind = kind ∧
        ∃ behind ∈ texts, text = subroutine.tokens ++ behind := by
  constructor
  · rintro ⟨-, _, ⟨returns, _, ⟨name, _, ⟨-, _, ⟨parameters, _, ⟨-, _, ⟨-, _, ⟨locals, _, ⟨body, _,
      ⟨-, behind, member, rfl⟩, rfl⟩, rfl⟩, rfl⟩, rfl⟩, rfl⟩, rfl⟩, rfl⟩, rfl⟩, rfl⟩
    refine ⟨⟨kind, returns, name, parameters, locals, body⟩, rfl, behind, member, ?_⟩
    simp [Subroutine.tokens, statementTokens_eq_flatMap, returnedPhrase, parametersPhrase, localsPhrase,
      Statement.phrase, Phrase.repeated, Phrase.name, Phrase.keyword, Phrase.symbol, Phrase.single]
  · rintro ⟨⟨_, returns, name, parameters, locals, body⟩, rfl, behind, member, rfl⟩
    refine ⟨(), _, ⟨returns, _, ⟨name, _, ⟨(), _, ⟨parameters, _, ⟨(), _, ⟨(), _, ⟨locals, _, ⟨body, _,
      ⟨(), behind, member, rfl⟩, rfl⟩, rfl⟩, rfl⟩, rfl⟩, rfl⟩, rfl⟩, rfl⟩, rfl⟩, ?_⟩
    simp [Subroutine.tokens, statementTokens_eq_flatMap, returnedPhrase, parametersPhrase, localsPhrase,
      Statement.phrase, Phrase.repeated, Phrase.name, Phrase.keyword, Phrase.symbol, Phrase.single]

theorem subroutine_append :
    Subroutine.phrase ++ texts =
      (Phrase.keyword .constructor_ ++ behindKind texts) ∪
        ((Phrase.keyword .function ++ behindKind texts) ∪ (Phrase.keyword .method ++ behindKind texts)) := by
  ext text
  constructor
  · rintro ⟨subroutine, behind, member, rfl⟩
    have ofKind {kind : SubroutineKind} (same : subroutine.kind = kind) :
        subroutine.tokens ++ behind ∈ Phrase.keyword (kindKeyword kind) ++ behindKind texts :=
      mem_subroutine.mpr ⟨subroutine, same, behind, member, rfl⟩
    cases kind : subroutine.kind with
    | constructor_ => exact .inl (ofKind kind)
    | function => exact .inr (.inl (ofKind kind))
    | method => exact .inr (.inr (ofKind kind))
  · have ofKind (kind : SubroutineKind)
        (begun : text ∈ Phrase.keyword (kindKeyword kind) ++ behindKind texts) :
        text ∈ Subroutine.phrase ++ texts := by
      obtain ⟨subroutine, -, behind, member, rfl⟩ := mem_subroutine.mp begun
      exact ⟨subroutine, behind, member, rfl⟩
    rintro (begun | begun | begun)
    · exact ofKind .constructor_ begun
    · exact ofKind .function begun
    · exact ofKind .method begun

theorem subroutine_repeated :
    Subroutine.phrase.repeated ++ texts =
      (Phrase.keyword .constructor_ ++ behindKind (Subroutine.phrase.repeated ++ texts)) ∪
        ((Phrase.keyword .function ++ behindKind (Subroutine.phrase.repeated ++ texts)) ∪
          ((Phrase.keyword .method ++ behindKind (Subroutine.phrase.repeated ++ texts)) ∪ texts)) :=
  Texts.repeated_append.trans (by rw [subroutine_append, Texts.union_assoc, Texts.union_assoc])

theorem class_append :
    Class.phrase ++ texts =
      Phrase.keyword .class_ ++ (Phrase.name ++ (Phrase.symbol '{' ++ (ClassVariables.phrase.repeated ++
        (Subroutine.phrase.repeated ++ (Phrase.symbol '}' ++ texts))))) := by
  ext text
  constructor
  · rintro ⟨⟨name, shared, subroutines⟩, behind, member, rfl⟩
    refine ⟨(), _, ⟨name, _, ⟨(), _, ⟨shared, _, ⟨subroutines, _,
      ⟨(), behind, member, rfl⟩, rfl⟩, rfl⟩, rfl⟩, rfl⟩, ?_⟩
    simp [Class.phrase, Class.tokens, ClassVariables.phrase, Subroutine.phrase, Phrase.repeated,
      Phrase.name, Phrase.keyword, Phrase.symbol, Phrase.single]
  · rintro ⟨-, _, ⟨name, _, ⟨-, _, ⟨shared, _, ⟨subroutines, _,
      ⟨-, behind, member, rfl⟩, rfl⟩, rfl⟩, rfl⟩, rfl⟩, rfl⟩
    refine ⟨⟨name, shared, subroutines⟩, behind, member, ?_⟩
    simp [Class.phrase, Class.tokens, ClassVariables.phrase, Subroutine.phrase, Phrase.repeated,
      Phrase.name, Phrase.keyword, Phrase.symbol, Phrase.single]

theorem avoids_subroutines {excluded : Token → Bool} (avoids : texts.Avoids excluded)
    (apart : ∀ kind, excluded (.keyword (kindKeyword kind)) = false) :
    (Subroutine.phrase.repeated ++ texts).Avoids excluded := by
  rw [Texts.repeated_append, subroutine_append]
  simp only [Texts.avoids_union, Texts.avoids_keyword]
  exact ⟨⟨apart .constructor_, apart .function, apart .method⟩, avoids⟩

end Productions

/-! ## Declarations -/

theorem isType_iff (token : Token) :
    (typeOf? false token).isSome ↔ ∃ type : TypeName, type.token = token := by
  constructor
  · intro isType
    obtain ⟨type, named⟩ := Option.isSome_iff_exists.mp isType
    obtain ⟨written, rfl, -⟩ := typeName_of_typeOf? named
    exact ⟨written, rfl⟩
  · rintro ⟨type, rfl⟩
    cases type <;> rfl

theorem isReturned_iff (token : Token) :
    (typeOf? true token).isSome ↔ ∃ returns : Option TypeName, returnToken returns = token := by
  constructor
  · intro isType
    obtain ⟨type, named⟩ := Option.isSome_iff_exists.mp isType
    obtain ⟨written, rfl, -⟩ := returns_of_typeOf? named
    exact ⟨written, rfl⟩
  · rintro ⟨returns, rfl⟩
    cases returns with
    | none => rfl
    | some type => cases type <;> rfl

section Declarations

variable {budget : Nat}

theorem localizes_declarations (kind : Symbol.Kind) :
    Localizes (Parser.declarations kind budget) Variables.phrase (fun _ => false) budget := by
  intro texts before _ within
  rw [variables_append]
  refine .typeName_bind isType_iff fun type _ _ typed => ?_
  have name : Localizes (do define (← identifier) type kind) Phrase.name (fun _ => false) budget :=
    fun _ _ _ _ => .identifier_bind fun name _ _ => .silent (.define name type kind)
  have names := name.commaSeparated rfl (Nat.le_refl budget)
  have declared : Tracks (Phrase.name.separated ++ (Phrase.symbol ';' ++ texts))
      (Parser.names type kind budget) (fun _ => Phrase.symbol ';' ++ texts) _ :=
    (names (Texts.avoids_symbol.mpr rfl) (typed.within within)).bind fun _ _ _ _ _ => .pure rfl
  exact declared.bind fun _ _ _ _ _ => .expect_bind fun _ _ => .pure rfl

theorem localizes_classVariables :
    LocalizesItem (Parser.classVariables budget) ClassVariables.phrase declaresClassVariables budget := by
  constructor
  · intro texts before avoids within
    have apart (word : Keyword) (declares : declaresClassVariables (.keyword word) = true) :
        texts.Avoids (· == .keyword word) :=
      avoids.mono fun token same => by rw [eq_of_beq same, declares]
    have kind : Tracks (ClassVariables.phrase.repeated ++ texts) classVariableKind?
        (fun found => if found.isSome then Variables.phrase ++ (ClassVariables.phrase.repeated ++ texts)
          else texts) before := by
      refine .of_eq classVariables_repeated (.eat_bind ?_ (fun _ _ => .pure rfl) ?_)
      · exact Texts.avoids_union.mpr ⟨Texts.avoids_keyword.mpr rfl, apart .static_ rfl⟩
      · exact .eat_bind (apart .field rfl) (fun _ _ => .pure rfl) (.pure rfl)
    refine kind.bind fun found _ _ _ passes => ?_
    cases found with
    | none => exact .pure rfl
    | some kind =>
        have declared : Tracks (Variables.phrase ++ (ClassVariables.phrase.repeated ++ texts))
            (Parser.declarations kind budget) (fun _ => ClassVariables.phrase.repeated ++ texts) _ :=
          localizes_declarations kind Texts.avoids_nothing (passes.within within)
        exact declared.bind fun _ _ _ _ _ => .pure rfl
  · intro before item after within ran
    obtain ⟨written, reads, -⟩ := (declares_classVariables budget).present _ _ _ ran
    have moved := (Passes.of_reads reads).length
    rw [State.declaring_cursor, ClassVariables.tokens, List.length_cons] at moved
    omega

/-- Behind a declaration that is counted as one of no names, no other one stands. -/
theorem LocalsReadOn.no_var_behind {before after : State} {group : Variables}
    (readsOn : LocalsReadOn (before.cursor.rest.map (·.token)))
    (passes : Passes before (.keyword .var :: group.tokens) after) (noNames : counted group.names.length = 0) :
    after.cursor.peek? ≠ some (.keyword .var) := by
  intro seen
  obtain ⟨next, isNext, isVar⟩ := Option.map_eq_some_iff.mp seen
  obtain ⟨behind, rest⟩ := List.head?_eq_some_iff.mp isNext
  obtain ⟨front, unread, spelled⟩ := passes.unread
  refine readsOn group ⟨[], behind.map (·.token), ?_⟩ noNames
  rw [unread, rest, List.map_append, List.map_cons, spelled, isVar, List.nil_append, List.append_assoc,
    List.singleton_append]

/-- Behind a declaration of local variables another one may stand, but for where none is looked for. -/
theorem tracks_localVariables {texts : Texts} {before : State} (avoids : texts.Avoids (· == .keyword .var))
    (within : before.cursor.rest.length < budget)
    (readsOn : LocalsReadOn (before.cursor.rest.map (·.token))) :
    Tracks (localsPhrase.repeated ++ texts) (Parser.localVariables budget)
      (fun count => if 0 < count then localsPhrase.repeated ++ texts else texts) before := by
  refine .of_eq locals_repeated (.eat_bind avoids (fun begun word => ?_) (.pure rfl))
  have declared : Tracks (Variables.phrase ++ (localsPhrase.repeated ++ texts))
      (Parser.declarations .var budget) (fun _ => localsPhrase.repeated ++ texts) begun :=
    localizes_declarations .var Texts.avoids_nothing (word.within within)
  refine declared.narrow_left (fun count after ran text member => ?_) fun count after ran text member seen => ?_
  · split at member
    · exact member
    · rw [locals_repeated]
      exact .inr member
  · split
    · exact member
    · rename_i noMore
      obtain ⟨group, reads, rfl⟩ := declares_declarations .var budget _ _ _ ran
      have names := Passes.of_reads reads
      have line : Passes before (.keyword .var :: group.tokens) after := word.trans names
      have ends := readsOn.no_var_behind line (Nat.eq_zero_of_not_pos noMore)
      rw [locals_repeated] at member
      rcases member with ⟨written, behind, begins, same⟩ | inTexts
      · rw [same] at seen
        exact absurd seen.symm ends
      · exact inTexts

theorem tracks_locals {texts : Texts} {before : State} {lines : Nat}
    (avoids : texts.Avoids (· == .keyword .var)) (within : before.cursor.rest.length < budget)
    (enough : before.cursor.rest.length < lines)
    (readsOn : LocalsReadOn (before.cursor.rest.map (·.token))) :
    Tracks (localsPhrase.repeated ++ texts) (Parser.locals budget lines) (fun _ => texts) before := by
  induction lines generalizing before with
  | zero => omega
  | succ lines ih =>
      refine (tracks_localVariables avoids within readsOn).bind fun count read between ran passes => ?_
      split
      · rename_i goesOn
        rcases localVariables_eq_ok ran with ⟨group, reads, -⟩ | ⟨rfl, -⟩
        · have moved := (Passes.of_reads reads).length
          rw [State.declaring_cursor, List.length_cons] at moved
          exact ih (by omega) (by omega) (readsOn.behind passes)
        · exact absurd goesOn (Nat.lt_irrefl 0)
      · exact .pure rfl

theorem localizes_parameter (bound : Nat) :
    Localizes Parser.parameter Parameter.phrase (fun _ => false) bound := by
  intro texts before _ _
  rw [parameter_append]
  refine .typeName_bind isType_iff fun type _ _ _ => ?_
  exact .identifier_bind fun name _ _ => .silent (.define name type .argument)

theorem tracks_parameters {texts : Texts} {before : State}
    (within : before.cursor.rest.length < budget) :
    Tracks (parametersPhrase ++ (Phrase.symbol ')' ++ texts)) (Parser.parameters budget)
      (fun _ => Phrase.symbol ')' ++ texts) before := by
  have parameters := (localizes_parameter budget).commaSeparated rfl (Nat.le_refl budget)
  rw [parameters_append]
  refine .isNext_bind (fun closes => ?_) fun goesOn => ?_
  · refine .skip (Texts.Avoids.absent ?_ closes) (.pure rfl)
    rw [Texts.separated_append, parameter_append, typePhrase, Texts.avoids_single]
    intro type
    cases type <;> rfl
  · refine .take (Texts.absent_symbol goesOn) ?_
    exact (parameters (Texts.avoids_symbol.mpr rfl) within).bind fun _ _ _ _ _ => .pure rfl

end Declarations

/-! ## Subroutines -/

theorem silent_beginSubroutine (kind : SubroutineKind) : Silent (beginSubroutine kind) := by
  refine .bind (.modify fun _ => rfl) fun _ => ?_
  split
  · exact .bind .get fun state => .define _ state.className .argument
  · exact .pure ()

section Subroutines

variable {texts : Texts} {before : State} {budget : Nat}

theorem tracks_subroutineOf (kind : SubroutineKind) (within : before.cursor.rest.length < budget)
    (readsOn : LocalsReadOn (before.cursor.rest.map (·.token))) :
    Tracks (behindKind texts) (Parser.subroutineOf kind budget) (fun _ => texts) before := by
  refine .silent_bind (silent_beginSubroutine kind) fun _ begun same => ?_
  rw [← same] at within readsOn
  refine .typeName_bind isReturned_iff fun _ _ _ typed => ?_
  refine .identifier_bind fun _ _ named => ?_
  refine .expect_bind fun _ opened => ?_
  have inParameters := opened.within (named.within (typed.within within))
  refine (tracks_parameters inParameters).bind fun _ _ _ _ read => ?_
  refine .expect_bind fun _ closed => .expect_bind fun _ entered => ?_
  have inLocals := entered.within (closed.within (read.within inParameters))
  have readsOnLocals := (((((readsOn.behind typed).behind named).behind opened).behind read).behind
    closed).behind entered
  have apart : (Statement.phrase.repeated ++ (Phrase.symbol '}' ++ texts)).Avoids (· == .keyword .var) :=
    avoids_word (fun _ => rfl) (Texts.avoids_symbol.mpr rfl)
  refine (tracks_locals apart inLocals inLocals readsOnLocals).bind fun _ _ _ _ declared => ?_
  refine .get_bind ?_
  have inBody := declared.within inLocals
  refine (localizes_statements budget (Texts.avoids_symbol.mpr rfl) inBody).bind fun _ _ _ _ _ => ?_
  exact .expect_bind fun _ _ => .pure rfl

theorem tracks_subroutine (avoids : texts.Avoids beginsSubroutine)
    (within : before.cursor.rest.length < budget)
    (readsOn : LocalsReadOn (before.cursor.rest.map (·.token))) :
    Tracks (Subroutine.phrase.repeated ++ texts) (Parser.subroutine budget)
      (fun found => if found.isSome then Subroutine.phrase.repeated ++ texts else texts) before := by
  have apart (kind : SubroutineKind) : texts.Avoids (· == .keyword (kindKeyword kind)) :=
    avoids.mono fun token same => by
      rw [eq_of_beq same]
      cases kind <;> rfl
  have kind : Tracks (Subroutine.phrase.repeated ++ texts) subroutineKind?
      (fun found => if found.isSome then behindKind (Subroutine.phrase.repeated ++ texts) else texts)
      before := by
    refine .of_eq subroutine_repeated (.eat_bind ?_ (fun _ _ => .pure rfl) (.eat_bind ?_
      (fun _ _ => .pure rfl) (.eat_bind (apart .method) (fun _ _ => .pure rfl) (.pure rfl))))
    · refine Texts.avoids_union.mpr ⟨Texts.avoids_keyword.mpr rfl, ?_⟩
      exact Texts.avoids_union.mpr ⟨Texts.avoids_keyword.mpr rfl, apart .constructor_⟩
    · exact Texts.avoids_union.mpr ⟨Texts.avoids_keyword.mpr rfl, apart .function⟩
  refine kind.bind fun found _ _ _ passes => ?_
  cases found with
  | none => exact .pure rfl
  | some kind => exact .map (tracks_subroutineOf kind (passes.within within) (readsOn.behind passes))

/-- **Subroutines** one after the other. -/
theorem tracks_subroutines (avoids : texts.Avoids beginsSubroutine)
    (within : before.cursor.rest.length < budget)
    (readsOn : LocalsReadOn (before.cursor.rest.map (·.token))) :
    Tracks (Subroutine.phrase.repeated ++ texts) (Parser.many (Parser.subroutine budget) budget)
      (fun _ => texts) before := by
  let good (state : State) : Prop :=
    state.cursor.rest.length < budget ∧ LocalsReadOn (state.cursor.rest.map (·.token))
  refine Tracks.many good (fun before begun => tracks_subroutine avoids begun.1 begun.2) ?_ ⟨within, readsOn⟩ within
  rintro before value after ⟨within, readsOn⟩ ran
  obtain ⟨written, -, reads, -⟩ := recognizes_subroutine ran
  have passes := Passes.of_reads reads
  have moved := passes.length
  rw [State.passing_cursor, State.declaring_cursor, Subroutine.tokens, List.length_cons] at moved
  exact ⟨by omega, by omega, readsOn.behind passes⟩

/-- **A class** and the end of the text behind it. -/
theorem tracks_class (within : before.cursor.rest.length < budget)
    (readsOn : LocalsReadOn (before.cursor.rest.map (·.token))) :
    Tracks (Class.phrase ++ Texts.done) (Parser.class_ budget) (fun _ => Texts.done) before := by
  rw [class_append]
  refine .expect_bind fun _ begun => ?_
  refine .identifier_bind fun name _ named => ?_
  refine .silent_bind (.modify fun _ => rfl) fun _ _ same => ?_
  have inHeader := named.within (begun.within within)
  have readsOnHeader := (readsOn.behind begun).behind named
  rw [← same] at inHeader readsOnHeader
  refine .expect_bind fun _ opened => ?_
  have inVariables := opened.within inHeader
  have shared := localizes_classVariables.many (Nat.le_refl budget)
  have apart (kind : SubroutineKind) : declaresClassVariables (.keyword (kindKeyword kind)) = false := by
    cases kind <;> rfl
  refine (shared (avoids_subroutines (Texts.avoids_symbol.mpr rfl) apart) inVariables).bind
    fun _ _ _ _ declared => ?_
  refine .get_bind ?_
  have readsOnSubroutines := (readsOnHeader.behind opened).behind declared
  refine (tracks_subroutines (Texts.avoids_symbol.mpr rfl) (declared.within inVariables)
    readsOnSubroutines).bind fun _ _ _ _ _ => ?_
  refine .expect_bind fun last _ => .get_bind ?_
  dsimp only
  split
  · exact .pure rfl
  -- Behind the class a token that is left over is the offence.
  · rename_i goesOn
    have stops : Tracks Texts.done (Parser.stop (.described "end of input") : Parser PUnit)
        (fun _ => Texts.done) last := by
      refine .stop _ ?_
      rintro _ rfl seen
      exact goesOn ((Cursor.atEnd_iff_peek? _).mpr seen.symm)
    exact stops.bind fun _ _ _ _ _ => .pure rfl

end Subroutines

end JackToolchain.Jack.Written

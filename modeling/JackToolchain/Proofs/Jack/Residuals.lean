import JackToolchain.Proofs.Jack.Consumption
import JackToolchain.Proofs.Jack.Phrases

/-!
# What may still be read

Runs of parsers, told by the token lists that may stand unread in front of them and behind them.

## Main Definitions

* `Passes` — the position moves behind certain tokens, whatever happens to names and numbers.
* `IsResidual` — what is left of texts when certain tokens have been read and one is seen.
* `IsOffended` — what has been read begins a text, and with the token that is seen behind it it does not.
* `Tracks` — a parser that succeeds leaves what is left of the texts in front of it, and a parser that
  stops because something else was expected is offended there.
* `Localizes`, `LocalizesItem` — the same in front of every derivation that ends where it has to.

## Main Statements

* `Tracks.bind`, `Tracks.narrow` — sequences, and texts that the next token excludes.
* `Tracks.expect_bind`, `Tracks.eat_bind`, `Tracks.identifier_bind`, … — one rule for each parser of a token.
* `LocalizesItem.many`, `Localizes.commaSeparated` — repetitions.

## Design Notes

The texts behind a derivation are part of the set in front of it.  In this way a rule says at once which token
may follow a derivation and where the first one stands that may not.  Faults of names and of string constants
are left out: nothing is said about where they are found.
-/

namespace JackToolchain.Jack

open JackToolchain.Jack.Parser

/-! ## Texts -/

namespace Texts

open Phrase

variable {ω : Type} {phrase : Phrase ω} {first second texts : Texts} {text : List Token}
  {token : Token} {excluded : Token → Bool}

@[ext] theorem ext (same : ∀ text, text ∈ first ↔ text ∈ second) : first = second := by
  obtain ⟨members, _⟩ := first
  obtain ⟨others, _⟩ := second
  obtain rfl : members = others := Set.ext same
  rfl

@[simp] theorem mem_union : text ∈ first ∪ second ↔ text ∈ first ∨ text ∈ second := Iff.rfl

theorem union_assoc : first ∪ second ∪ texts = first ∪ (second ∪ texts) := by
  ext text
  exact or_assoc

theorem append_mem (written : ω) (member : text ∈ texts) :
    phrase.tokens written ++ text ∈ phrase ++ texts :=
  ⟨written, text, member, rfl⟩

theorem mem_single {token : ω → Token} {proper : ∃ written, (token written).IsProper} :
    text ∈ single token proper ++ texts ↔
      ∃ written, ∃ behind ∈ texts, text = token written :: behind :=
  Iff.rfl

theorem cons_mem_single {next : ω → Token} {proper : ∃ written, (next written).IsProper} :
    token :: text ∈ single next proper ++ texts ↔ (∃ written, next written = token) ∧ text ∈ texts := by
  rw [mem_single]
  constructor
  · rintro ⟨written, behind, member, same⟩
    obtain ⟨rfl, rfl⟩ := List.cons.inj same
    exact ⟨⟨written, rfl⟩, member⟩
  · rintro ⟨⟨written, rfl⟩, member⟩
    exact ⟨written, text, member, rfl⟩

@[simp] theorem cons_mem_keyword {k : Keyword} :
    token :: text ∈ keyword k ++ texts ↔ token = .keyword k ∧ text ∈ texts := by
  rw [keyword, cons_mem_single, exists_const, eq_comm]

@[simp] theorem cons_mem_symbol {c : Char} {known : c ∈ symbols} :
    token :: text ∈ symbol c known ++ texts ↔ token = .symbol c ∧ text ∈ texts := by
  rw [symbol, cons_mem_single, exists_const, eq_comm]

@[simp] theorem cons_mem_name :
    token :: text ∈ name ++ texts ↔ (∃ spelling, Token.identifier spelling = token) ∧ text ∈ texts :=
  cons_mem_single

/-- One derivation and those behind it, or none. -/
theorem repeated_append :
    phrase.repeated ++ texts = (phrase ++ (phrase.repeated ++ texts)) ∪ texts := by
  ext text
  constructor
  · rintro ⟨written, behind, member, rfl⟩
    cases written with
    | nil => exact .inr member
    | cons one others =>
        refine .inl ⟨one, _, append_mem others member, ?_⟩
        exact List.append_assoc _ _ _
  · rintro (⟨one, _, ⟨others, behind, member, rfl⟩, rfl⟩ | member)
    · exact ⟨one :: others, behind, member, (List.append_assoc _ _ _).symm⟩
    · exact ⟨[], text, member, rfl⟩

theorem enclosed_append {opening closing : Char} {known : opening ∈ symbols ∧ closing ∈ symbols} :
    phrase.enclosed opening closing known ++ texts =
      symbol opening known.1 ++ (phrase ++ (symbol closing known.2 ++ texts)) := by
  ext text
  constructor
  · rintro ⟨written, behind, member, rfl⟩
    refine ⟨(), _, append_mem written (append_mem () member), ?_⟩
    exact congrArg (List.cons _) (List.append_assoc _ _ _)
  · rintro ⟨-, _, ⟨written, _, ⟨-, behind, member, rfl⟩, rfl⟩, rfl⟩
    refine ⟨written, behind, member, congrArg (List.cons _) ?_⟩
    exact (List.append_assoc (phrase.tokens written) [.symbol closing] behind).symm

theorem further_append : phrase.further ++ texts = symbol ',' ++ (phrase ++ texts) := by
  ext text
  constructor
  · rintro ⟨written, behind, member, rfl⟩
    exact append_mem () (append_mem written member)
  · rintro ⟨-, _, ⟨written, behind, member, rfl⟩, rfl⟩
    exact append_mem written member

theorem separated_append :
    phrase.separated ++ texts = phrase ++ (phrase.further.repeated ++ texts) := by
  ext text
  constructor
  · rintro ⟨⟨first, others⟩, behind, member, rfl⟩
    refine ⟨first, _, append_mem others member, ?_⟩
    exact List.append_assoc _ _ _
  · rintro ⟨first, _, ⟨others, behind, member, rfl⟩, rfl⟩
    exact ⟨(first, others), behind, member, (List.append_assoc _ _ _).symm⟩

/-! ### How texts begin -/

/-- No text begins with an excluded token. -/
def Avoids (texts : Texts) (excluded : Token → Bool) : Prop :=
  ∀ token text, token :: text ∈ texts → excluded token = false

theorem Avoids.not_mem (avoids : texts.Avoids excluded) (isExcluded : excluded token = true) :
    token :: text ∉ texts :=
  fun member => by simp [avoids token text member] at isExcluded

theorem avoids_nothing : texts.Avoids fun _ => false := fun _ _ _ => rfl

theorem Avoids.mono {fewer : Token → Bool} (avoids : texts.Avoids excluded)
    (among : ∀ token, fewer token = true → excluded token = true) : texts.Avoids fewer := by
  intro token text member
  cases isExcluded : fewer token with
  | false => rfl
  | true => exact absurd member (avoids.not_mem (among token isExcluded))

@[simp] theorem avoids_union :
    (first ∪ second).Avoids excluded ↔ first.Avoids excluded ∧ second.Avoids excluded := by
  constructor
  · intro avoids
    exact ⟨fun token text member => avoids token text (.inl member),
      fun token text member => avoids token text (.inr member)⟩
  · rintro ⟨avoidsFirst, avoidsSecond⟩ token text (member | member)
    · exact avoidsFirst token text member
    · exact avoidsSecond token text member

theorem avoids_single {next : ω → Token} {proper : ∃ written, (next written).IsProper} :
    (single next proper ++ texts).Avoids excluded ↔ ∀ written, excluded (next written) = false := by
  obtain ⟨text, inTexts, -⟩ := texts.proper
  constructor
  · exact fun avoids written => avoids _ text ⟨written, text, inTexts, rfl⟩
  · intro avoids token text member
    obtain ⟨⟨written, rfl⟩, -⟩ := cons_mem_single.mp member
    exact avoids written

@[simp] theorem avoids_keyword {k : Keyword} :
    (keyword k ++ texts).Avoids excluded ↔ excluded (.keyword k) = false := by
  rw [keyword, avoids_single, forall_const]

@[simp] theorem avoids_symbol {c : Char} {known : c ∈ symbols} :
    (symbol c known ++ texts).Avoids excluded ↔ excluded (.symbol c) = false := by
  rw [symbol, avoids_single, forall_const]

/-- Behind a derivation there may be a comma and another one. -/
theorem Avoids.further (avoids : texts.Avoids fun token => excluded token || token == .symbol ',')
    (ends : excluded (.symbol ',') = false) : (phrase.further.repeated ++ texts).Avoids excluded := by
  rw [repeated_append, further_append, avoids_union, avoids_symbol]
  exact ⟨ends, avoids.mono fun token others => by rw [others, Bool.true_or]⟩

@[simp] theorem avoids_done : done.Avoids excluded := by
  rintro token text ⟨⟩

end Texts

/-! ## Positions -/

/-- **Moving on.**  Between two states the position moves behind the given tokens. -/
def Passes (before : State) (tokens : List Token) (after : State) : Prop :=
  ∃ front, before.cursor = { after.cursor with rest := front ++ after.cursor.rest } ∧
    front.map (·.token) = tokens

namespace Passes

variable {before between after : State} {front behind tokens : List Token} {token : Token}

theorem of_cursor (same : after.cursor = before.cursor) : Passes before [] after :=
  ⟨[], by rw [same]; rfl, rfl⟩

theorem of_reads (reads : Reads before tokens after) : Passes before tokens after := by
  obtain ⟨front, unread, spelled⟩ := reads.spelled
  refine ⟨front, ?_, spelled⟩
  rw [reads.moved]
  show before.cursor = { before.cursor with rest := front ++ after.cursor.rest }
  rw [← unread]

theorem trans (first : Passes before front between) (second : Passes between behind after) :
    Passes before (front ++ behind) after := by
  obtain ⟨located, same, rfl⟩ := first
  obtain ⟨further, sameFurther, rfl⟩ := second
  refine ⟨located ++ further, ?_, List.map_append⟩
  rw [same, sameFurther, List.append_assoc]

theorem unread (passes : Passes before tokens after) :
    ∃ front, before.cursor.rest = front ++ after.cursor.rest ∧ front.map (·.token) = tokens := by
  obtain ⟨front, same, spelled⟩ := passes
  exact ⟨front, by rw [same], spelled⟩

theorem lastLine (passes : Passes before tokens after) :
    before.cursor.lastLine = after.cursor.lastLine := by
  obtain ⟨front, same, -⟩ := passes
  rw [same]

/-- Every token that is passed is one less unread. -/
theorem length (passes : Passes before tokens after) :
    before.cursor.rest.length = tokens.length + after.cursor.rest.length := by
  obtain ⟨front, unread, rfl⟩ := passes.unread
  rw [unread, List.length_append, List.length_map]

theorem within (passes : Passes before tokens after) {bound : Nat}
    (enough : before.cursor.rest.length < bound) : after.cursor.rest.length < bound := by
  rw [passes.length] at enough
  omega

theorem within_of_cons (passes : Passes before (token :: tokens) after) {bound : Nat}
    (enough : before.cursor.rest.length < bound + 1) : after.cursor.rest.length < bound := by
  rw [passes.length, List.length_cons] at enough
  omega

/-- Behind one token stands the second one. -/
theorem peekAt?_one (passes : Passes before [token] after) :
    before.cursor.peekAt? 1 = after.cursor.peek? := by
  obtain ⟨front, unread, spelled⟩ := passes.unread
  obtain ⟨located, rfl, -⟩ := List.map_eq_singleton_iff.mp spelled
  rw [Cursor.peekAt?, unread, List.singleton_append, List.getElem?_cons_succ,
    ← List.head?_eq_getElem?, Cursor.peek?]

/-- What is seen in front of a text that begins behind the tokens. -/
theorem head? (passes : Passes before tokens after) {text : List Token}
    (seen : text.head? = after.cursor.peek?) : (tokens ++ text).head? = before.cursor.peek? := by
  obtain ⟨front, unread, rfl⟩ := passes.unread
  rw [Cursor.peek?, unread]
  cases front with
  | nil => exact seen
  | cons located front => rfl

end Passes

namespace Texts

variable {texts : Texts} {before : State} {token : Token}

/-- Texts that do not begin with the token that is next. -/
theorem Avoids.absent (avoids : texts.Avoids (· == token)) (found : before.cursor.peek? = some token) :
    ∀ text ∈ texts, text.head? ≠ before.cursor.peek? := by
  intro text member seen
  obtain ⟨others, rfl⟩ := List.head?_eq_some_iff.mp (seen.trans found)
  exact avoids.not_mem (beq_self_eq_true token) member

theorem absent_symbol {c : Char} {known : c ∈ symbols}
    (missing : before.cursor.peek? ≠ some (.symbol c)) :
    ∀ text ∈ Phrase.symbol c known ++ texts, text.head? ≠ before.cursor.peek? := by
  rintro _ ⟨written, behind, -, rfl⟩ seen
  exact missing seen.symm

end Texts

/-! ## Parsers that fail -/

/-- A sequence that fails has failed in one of its parts. -/
theorem Parser.bind_eq_error {α β : Type} {first : Parser α} {next : α → Parser β} {fault : Fault}
    {before reached : State} (ran : (first >>= next).run before = .error fault reached) :
    first.run before = .error fault reached ∨ ∃ middle between, first.run before = .ok middle between ∧
      (next middle).run between = .error fault reached := by
  rw [EStateM.run_bind] at ran
  cases inFront : first.run before with
  | error other state =>
      rw [inFront] at ran
      obtain ⟨rfl, rfl⟩ := EStateM.Result.error.inj ran
      exact .inl rfl
  | ok middle between =>
      rw [inFront] at ran
      exact .inr ⟨middle, between, rfl, ran⟩

/-- Looking for a token never fails. -/
theorem Parser.eat_ne_error {token : Token} {fault : Fault} {before reached : State} :
    (eat token).run before ≠ .error fault reached := by
  intro ran
  rcases bind_eq_error ran with failed | ⟨isNext, _, -, failed⟩
  · cases failed
  · cases isNext with
    | false => cases failed
    | true =>
        rcases bind_eq_error failed with failed | ⟨_, _, -, failed⟩
        · cases failed
        · cases failed

/-- A token that is not read was not next. -/
theorem Parser.eat_eq_false {token : Token} {before after : State}
    (ran : (eat token).run before = .ok false after) :
    before.cursor.peek? ≠ some token ∧ after = before := by
  obtain ⟨isNext, _, looked, ran⟩ := bind_eq_ok ran
  obtain ⟨rfl, rfl⟩ := isNext_eq_ok looked
  split at ran
  · obtain ⟨_, _, -, ran⟩ := bind_eq_ok ran
    exact absurd (pure_eq_ok ran).1 Bool.false_ne_true
  · rename_i missing
    exact ⟨fun found => missing (by rw [found, beq_self_eq_true]), (pure_eq_ok ran).2⟩

/-! ## Tracking -/

/-- **What is left** of texts when certain tokens have been read: the texts that begin with the token that is
seen there, if those tokens in front of them make one of the texts. -/
structure IsResidual (texts : Texts) (read : List Token) (next : Option Token) (left : Texts) : Prop where
  sound : ∀ text ∈ left, read ++ text ∈ texts
  complete : ∀ text : List Token, text.head? = next → read ++ text ∈ texts → text ∈ left

/-- **The first offending token**: what has been read can be completed, but not with the token that is seen
behind it. -/
structure IsOffended (texts : Texts) (read : List Token) (next : Option Token) : Prop where
  viable : ∃ more, read ++ more ∈ texts ∧ ∀ token ∈ more, token.IsProper
  offended : ∀ text : List Token, text.head? = next → read ++ text ∉ texts

/-- **Tracking.**  In front of one of the texts the parser leaves what is left of them, or stops at the first
token that offends them. -/
structure Tracks {α : Type} (texts : Texts) (parser : Parser α) (left : α → Texts) (before : State) :
    Prop where
  onward : ∀ result after, parser.run before = .ok result after →
    ∃ read, Passes before read after ∧ IsResidual texts read after.cursor.peek? (left result)
  stuck : ∀ what reached, parser.run before = .error (.expected what) reached →
    ∃ read, Passes before read reached ∧ IsOffended texts read reached.cursor.peek?

/-- A parser reads no token and never misses one. -/
structure Silent {α : Type} (parser : Parser α) : Prop where
  still : ∀ before result after, parser.run before = .ok result after → after.cursor = before.cursor
  content : ∀ before what reached, parser.run before ≠ .error (.expected what) reached

namespace Silent

theorem get : Silent (MonadState.get : Parser State) where
  still _ _ _ ran := by rw [(get_eq_ok ran).2]
  content := by rintro _ _ _ ⟨⟩

theorem pure {α : Type} (value : α) : Silent (Pure.pure value : Parser α) where
  still _ _ _ ran := by rw [(pure_eq_ok ran).2]
  content := by rintro _ _ _ ⟨⟩

theorem bind {α β : Type} {first : Parser α} {next : α → Parser β} (silent : Silent first)
    (then_ : ∀ result, Silent (next result)) : Silent (first >>= next) where
  still before result after ran := by
    obtain ⟨value, between, ranFirst, ranNext⟩ := bind_eq_ok ran
    rw [(then_ value).still _ _ _ ranNext, silent.still _ _ _ ranFirst]
  content before what reached ran := by
    rcases bind_eq_error ran with failed | ⟨value, between, -, failed⟩
    · exact silent.content _ _ _ failed
    · exact (then_ value).content _ _ _ failed

theorem modify {change : State → State} (same : ∀ state, (change state).cursor = state.cursor) :
    Silent (modify change : Parser PUnit) where
  still before _ _ ran := by
    rw [modify_eq_ok ran]
    exact same before
  content := by rintro _ _ _ ⟨⟩

theorem define (name type : String) (kind : Symbol.Kind) : Silent (Parser.define name type kind) :=
  modify fun _ => rfl

theorem lookup? (name : String) : Silent (Parser.lookup? name) where
  still _ _ _ ran := by rw [(lookup?_eq_ok ran).2]
  content := by rintro _ _ _ ⟨⟩

/-- A name that is not declared is another fault. -/
theorem place (name : String) : Silent (Parser.place name) where
  still _ _ _ ran := by
    obtain ⟨-, -, -, rfl⟩ := place_eq_ok ran
    rfl
  content := by
    intro before what reached ran
    rcases bind_eq_error ran with failed | ⟨entry, _, -, failed⟩
    · cases failed
    · cases entry <;> cases failed

theorem freshLabel : Silent Parser.freshLabel where
  still _ _ _ ran := by
    obtain ⟨-, rfl⟩ := freshLabel_eq_ok ran
    rfl
  content := by rintro _ _ _ ⟨⟩

end Silent

namespace Tracks

variable {α β ω : Type} {texts others behind : Texts} {parser : Parser α} {next : α → Parser β}
  {left : β → Texts} {before : State} {token : Token}

/-! ### Sequences -/

/-- **Sequences.** -/
theorem bind {middle : α → Texts} (first : Tracks texts parser middle before)
    (then_ : ∀ result read between, parser.run before = .ok result between →
      Passes before read between → Tracks (middle result) (next result) left between) :
    Tracks texts (parser >>= next) left before := by
  constructor
  · intro result after ran
    obtain ⟨value, between, ranFirst, ranNext⟩ := bind_eq_ok ran
    obtain ⟨read, passes, residual⟩ := first.onward _ _ ranFirst
    obtain ⟨more, passesMore, residualMore⟩ := (then_ value read between ranFirst passes).onward _ _ ranNext
    refine ⟨read ++ more, passes.trans passesMore, fun text member => ?_, fun text seen member => ?_⟩
    · rw [List.append_assoc]
      exact residual.sound _ (residualMore.sound text member)
    · rw [List.append_assoc] at member
      exact residualMore.complete text seen (residual.complete _ (passesMore.head? seen) member)
  · intro what reached ran
    rcases bind_eq_error ran with failed | ⟨value, between, ranFirst, failed⟩
    · exact first.stuck _ _ failed
    · obtain ⟨read, passes, residual⟩ := first.onward _ _ ranFirst
      obtain ⟨more, passesMore, offended⟩ := (then_ value read between ranFirst passes).stuck _ _ failed
      obtain ⟨completion, completes, proper⟩ := offended.viable
      refine ⟨read ++ more, passes.trans passesMore, ⟨completion, ?_, proper⟩,
        fun text seen member => ?_⟩
      · rw [List.append_assoc]
        exact residual.sound _ completes
      · rw [List.append_assoc] at member
        exact offended.offended text seen (residual.complete _ (passesMore.head? seen) member)

/-- What reads nothing leaves everything. -/
theorem silent (silent : Silent parser) : Tracks texts parser (fun _ => texts) before where
  onward _ _ ran :=
    ⟨[], .of_cursor (silent.still _ _ _ ran), fun _ member => member, fun _ _ member => member⟩
  stuck _ _ ran := absurd ran (silent.content _ _ _)

theorem silent_bind (reads : Silent parser)
    (then_ : ∀ result after, after.cursor = before.cursor → Tracks texts (next result) left after) :
    Tracks texts (parser >>= next) left before :=
  (silent reads).bind fun result _ after ran _ => then_ result after (reads.still _ _ _ ran)

theorem of_eq {left : α → Texts} (same : texts = others) (tracks : Tracks others parser left before) :
    Tracks texts parser left before :=
  same ▸ tracks

/-- Behind the results of the run, too, what does not begin with the next token may be left out. -/
theorem narrow_left {middle other : α → Texts} (tracks : Tracks texts parser middle before)
    (among : ∀ result after, parser.run before = .ok result after → ∀ text ∈ other result, text ∈ middle result)
    (narrows : ∀ result after, parser.run before = .ok result after →
      ∀ text ∈ middle result, text.head? = after.cursor.peek? → text ∈ other result) :
    Tracks texts parser other before where
  onward result after ran := by
    obtain ⟨read, passes, residual⟩ := tracks.onward result after ran
    exact ⟨read, passes, fun text member => residual.sound text (among result after ran text member),
      fun text seen member => narrows result after ran text (residual.complete text seen member) seen⟩
  stuck := tracks.stuck

theorem get_bind {next : State → Parser β} (then_ : Tracks texts (next before) left before) :
    Tracks texts (get >>= next) left before := by
  refine (silent .get).bind fun state _ after ran _ => ?_
  obtain ⟨rfl, rfl⟩ := get_eq_ok ran
  exact then_

theorem pure {value : β} (same : left value = texts) :
    Tracks texts (Pure.pure value : Parser β) left before := by
  subst same
  constructor
  · intro result after ran
    obtain ⟨rfl, rfl⟩ := pure_eq_ok ran
    exact ⟨[], .of_cursor rfl, fun _ member => member, fun _ _ member => member⟩
  · rintro what reached ⟨⟩

/-- What is only changed afterwards. -/
theorem map {f : α → β} (tracks : Tracks texts parser (fun value => left (f value)) before) :
    Tracks texts (f <$> parser) left before := by
  rw [map_eq_pure_bind]
  exact tracks.bind fun _ _ _ _ _ => .pure rfl

/-- **Stopping**: no text begins with the token that is next. -/
theorem stop (what : Expected) (offends : ∀ text ∈ texts, text.head? ≠ before.cursor.peek?) :
    Tracks texts (Parser.stop what : Parser β) left before := by
  constructor
  · intro result after ran
    exact (stop_ne_ok ran).elim
  · intro other reached ran
    obtain ⟨-, rfl⟩ := EStateM.Result.error.inj ran
    obtain ⟨text, member, proper⟩ := texts.proper
    exact ⟨[], .of_cursor rfl, ⟨text, member, proper⟩, fun text seen member => offends text member seen⟩

/-- A fault of another kind. -/
theorem throw {fault : Fault} (other : ∀ what, fault ≠ .expected what) :
    Tracks texts (throw fault : Parser β) left before := by
  constructor
  · intro result after ran
    exact (throw_ne_ok ran).elim
  · intro what reached ran
    obtain ⟨same, -⟩ := EStateM.Result.error.inj ran
    exact absurd same (other what)

/-- **The next token** excludes the texts that do not begin with it. -/
theorem narrow {left : α → Texts} (tracks : Tracks others parser left before)
    (among : ∀ text ∈ others, text ∈ texts)
    (narrows : ∀ text ∈ texts, text.head? = before.cursor.peek? → text ∈ others) :
    Tracks texts parser left before := by
  constructor
  · intro result after ran
    obtain ⟨read, passes, residual⟩ := tracks.onward _ _ ran
    exact ⟨read, passes, fun text member => among _ (residual.sound text member),
      fun text seen member => residual.complete text seen (narrows _ member (passes.head? seen))⟩
  · intro what reached ran
    obtain ⟨read, passes, offended⟩ := tracks.stuck _ _ ran
    obtain ⟨more, completes, proper⟩ := offended.viable
    exact ⟨read, passes, ⟨more, among _ completes, proper⟩,
      fun text seen member => offended.offended text seen (narrows _ member (passes.head? seen))⟩

/-- What does not begin with the next token is left out,… -/
theorem skip {left : α → Texts} (absent : ∀ text ∈ others, text.head? ≠ before.cursor.peek?)
    (tracks : Tracks texts parser left before) : Tracks (others ∪ texts) parser left before := by
  refine tracks.narrow (fun _ member => .inr member) ?_
  rintro text (member | member) seen
  · exact absurd seen (absent text member)
  · exact member

/-- …on either side. -/
theorem take {left : α → Texts} (absent : ∀ text ∈ others, text.head? ≠ before.cursor.peek?)
    (tracks : Tracks texts parser left before) : Tracks (texts ∪ others) parser left before := by
  refine tracks.narrow (fun _ member => .inl member) ?_
  rintro text (member | member) seen
  · exact member
  · exact absurd seen (absent text member)

/-! ### Single tokens -/

theorem peek_bind {next : Option Token → Parser β}
    (then_ : Tracks texts (next before.cursor.peek?) left before) :
    Tracks texts (Parser.peek? >>= next) left before := by
  have first : Tracks texts Parser.peek? (fun _ => texts) before :=
    silent ⟨fun _ _ _ ran => by rw [(peek?_eq_ok ran).2], by rintro _ _ _ ⟨⟩⟩
  refine first.bind fun result _ after ran _ => ?_
  obtain ⟨rfl, rfl⟩ := peek?_eq_ok ran
  exact then_

theorem peekAt_bind {next : Option Token → Parser β} (distance : Nat)
    (then_ : Tracks texts (next (before.cursor.peekAt? distance)) left before) :
    Tracks texts (Parser.peekAt? distance >>= next) left before := by
  have first : Tracks texts (Parser.peekAt? distance) (fun _ => texts) before :=
    silent ⟨fun _ _ _ ran => by rw [(peekAt?_eq_ok ran).2], by rintro _ _ _ ⟨⟩⟩
  refine first.bind fun result _ after ran _ => ?_
  obtain ⟨rfl, rfl⟩ := peekAt?_eq_ok ran
  exact then_

/-- Asking for a token. -/
theorem isNext_bind {present absent : Parser β}
    (yes : before.cursor.peek? = some token → Tracks texts present left before)
    (no : before.cursor.peek? ≠ some token → Tracks texts absent left before) :
    Tracks texts (Parser.isNext token >>= fun isNext => if isNext then present else absent) left
      before := by
  have first : Tracks texts (Parser.isNext token) (fun _ => texts) before :=
    silent ⟨fun _ _ _ ran => by rw [(isNext_eq_ok ran).2], by rintro _ _ _ ⟨⟩⟩
  refine first.bind fun result _ after ran _ => ?_
  obtain ⟨rfl, rfl⟩ := isNext_eq_ok ran
  by_cases found : after.cursor.peek? = some token
  · rw [found, beq_self_eq_true, if_pos rfl]
    exact yes found
  · rw [beq_eq_false_iff_ne.mpr found, if_neg Bool.false_ne_true]
    exact no found

/-- Reading the token that is next. -/
theorem advance_bind {next : Unit → Parser β} (found : before.cursor.peek? = some token)
    (begins : ∀ text, token :: text ∈ texts ↔ text ∈ behind)
    (then_ : ∀ after, Passes before [token] after → Tracks behind (next ()) left after) :
    Tracks texts (Parser.advance >>= next) left before := by
  have first : Tracks texts Parser.advance (fun _ => behind) before := by
    constructor
    · intro result after ran
      exact ⟨[token], .of_reads (advance_eq_ok ran found), fun text => (begins text).mpr,
        fun text _ => (begins text).mp⟩
    · rintro what reached ⟨⟩
  exact first.bind fun _ _ after ran _ => then_ after (.of_reads (advance_eq_ok ran found))

/-- **One of some tokens.**  A parser that reads it if it is next and stops otherwise. -/
theorem single {spelling : ω → Token} {proper : ∃ written, (spelling written).IsProper}
    (onward : ∀ result after, parser.run before = .ok result after →
      ∃ written, Reads before [spelling written] after)
    (stuck : ∀ what reached, parser.run before = .error (.expected what) reached →
      reached = before ∧ ∀ written, before.cursor.peek? ≠ some (spelling written)) :
    Tracks (Phrase.single spelling proper ++ texts) parser (fun _ => texts) before := by
  constructor
  · intro result after ran
    obtain ⟨written, reads⟩ := onward _ _ ran
    refine ⟨_, .of_reads reads, fun text member => ⟨written, text, member, rfl⟩,
      fun text _ member => (Texts.cons_mem_single.mp member).2⟩
  · intro what reached ran
    obtain ⟨rfl, absent⟩ := stuck _ _ ran
    refine ⟨[], .of_cursor rfl, (Phrase.single spelling proper ++ texts).proper, ?_⟩
    rintro text seen ⟨written, behind, -, rfl⟩
    exact absent written seen.symm

theorem identifier_bind {next : String → Parser β}
    (then_ : ∀ name after, Passes before [.identifier name] after →
      Tracks texts (next name) left after) :
    Tracks (Phrase.name ++ texts) (Parser.identifier >>= next) left before := by
  have first : Tracks (Phrase.name ++ texts) Parser.identifier (fun _ => texts) before := by
    refine single (fun name _ ran => ⟨name, identifier_eq_ok ran⟩) fun what reached ran => ?_
    rcases bind_eq_error ran with failed | ⟨found, between, looked, failed⟩
    · cases failed
    · obtain ⟨rfl, rfl⟩ := peek?_eq_ok looked
      split at failed
      · cases failed
      · rename_i other
        obtain ⟨-, rfl⟩ := EStateM.Result.error.inj failed
        exact ⟨rfl, other⟩
  exact first.bind fun name _ after ran _ => then_ name after (.of_reads (identifier_eq_ok ran))

theorem typeName_bind {next : String → Parser β} {allowVoid : Bool} {spelling : ω → Token}
    {proper : ∃ written, (spelling written).IsProper}
    (isType : ∀ token, (typeOf? allowVoid token).isSome ↔ ∃ written, spelling written = token)
    (then_ : ∀ type token after, Passes before [token] after → Tracks texts (next type) left after) :
    Tracks (Phrase.single spelling proper ++ texts) (Parser.typeName allowVoid >>= next) left before := by
  have first : Tracks (Phrase.single spelling proper ++ texts) (Parser.typeName allowVoid)
      (fun _ => texts) before := by
    refine single (fun type after ran => ?_) fun what reached ran => ?_
    · obtain ⟨token, named, reads⟩ := typeName_eq_ok ran
      obtain ⟨written, rfl⟩ := (isType token).mp (Option.isSome_of_eq_some named)
      exact ⟨written, reads⟩
    · rcases bind_eq_error ran with failed | ⟨found, between, looked, failed⟩
      · cases failed
      · obtain ⟨rfl, rfl⟩ := peek?_eq_ok looked
        split at failed
        · cases failed
        · rename_i other
          obtain ⟨-, rfl⟩ := EStateM.Result.error.inj failed
          refine ⟨rfl, fun written found => ?_⟩
          rw [found, Option.bind_some] at other
          exact absurd ((isType _).mpr ⟨written, rfl⟩) (by rw [other]; exact Bool.false_ne_true)
  refine first.bind fun type _ after ran _ => ?_
  obtain ⟨token, -, reads⟩ := typeName_eq_ok ran
  exact then_ type token after (.of_reads reads)

section Eating

variable {proper : ∃ written : Unit, ((fun _ => token) written).IsProper}

/-- **A token that may follow.** -/
theorem eat_bind {present absent : Parser β} (apart : others.Avoids (· == token))
    (hit : ∀ after, Passes before [token] after → Tracks texts present left after)
    (miss : Tracks others absent left before) :
    Tracks ((Phrase.single (fun _ : Unit => token) proper ++ texts) ∪ others)
      (Parser.eat token >>= fun eaten => if eaten then present else absent) left before := by
  have first : Tracks ((Phrase.single (fun _ : Unit => token) proper ++ texts) ∪ others)
      (Parser.eat token) (fun eaten => if eaten then texts else others) before := by
    refine isNext_bind (fun found => ?_) fun missing => ?_
    · refine advance_bind found (fun text => ?_) fun after _ => pure rfl
      rw [Texts.mem_union, Texts.cons_mem_single, or_iff_left (apart.not_mem (beq_self_eq_true token))]
      exact and_iff_right ⟨(), rfl⟩
    · refine skip ?_ (pure rfl)
      rintro _ ⟨written, behind, -, rfl⟩ seen
      exact missing seen.symm
  refine first.bind fun eaten _ after ran _ => ?_
  rcases eat_eq_ok ran with ⟨rfl, reads⟩ | ⟨rfl, rfl⟩
  · exact hit after (.of_reads reads)
  · exact miss

/-- **A token that must follow.** -/
theorem expect {shown : String} :
    Tracks (Phrase.single (fun _ : Unit => token) proper ++ texts) (Parser.expect token shown)
      (fun _ => texts) before := by
  refine single (fun _ _ ran => ⟨(), expect_eq_ok ran⟩) fun what reached ran => ?_
  rcases bind_eq_error ran with failed | ⟨eaten, between, ate, failed⟩
  · exact absurd failed eat_ne_error
  · cases eaten with
    | true => cases failed
    | false =>
        obtain ⟨missing, rfl⟩ := eat_eq_false ate
        obtain ⟨-, rfl⟩ := EStateM.Result.error.inj failed
        exact ⟨rfl, fun _ => missing⟩

theorem expect_bind {next : Unit → Parser β} {shown : String}
    (then_ : ∀ after, Passes before [token] after → Tracks texts (next ()) left after) :
    Tracks (Phrase.single (fun _ : Unit => token) proper ++ texts) (Parser.expect token shown >>= next)
      left before :=
  expect.bind fun _ _ after ran _ => then_ after (.of_reads (expect_eq_ok ran))

end Eating

end Tracks

/-! ## Derivations -/

/-- **Localizing errors.**  In front of a derivation and a text that does not continue it, the parser leaves
that text or stops at the first offending token.  Fewer tokens than the bound must be unread. -/
def Localizes {α ω : Type} (parser : Parser α) (phrase : Phrase ω) (continuing : Token → Bool)
    (bound : Nat) : Prop :=
  ∀ ⦃texts : Texts⦄ ⦃before : State⦄, texts.Avoids continuing → before.cursor.rest.length < bound →
    Tracks (phrase ++ texts) parser (fun _ => texts) before

/-- **Localizing errors in items.**  In front of derivations one after the other the parser passes the first
one, or finds that there is none.  An item that is returned has been read. -/
structure LocalizesItem {α ω : Type} (item? : Parser (Option α)) (phrase : Phrase ω)
    (continuing : Token → Bool) (bound : Nat) : Prop where
  tracks : ∀ {texts : Texts} {before : State}, texts.Avoids continuing →
    before.cursor.rest.length < bound →
    Tracks (phrase.repeated ++ texts) item?
      (fun found => if found.isSome then phrase.repeated ++ texts else texts) before
  advances : ∀ {before item after}, before.cursor.rest.length < bound →
    item?.run before = .ok (some item) after → after.cursor.rest.length < before.cursor.rest.length

section Repetition

variable {α ω : Type} {phrase : Phrase ω} {continuing : Token → Bool} {bound budget : Nat}

/-- What is left does not matter to how far a parser moves. -/
theorem Localizes.length_le {parser : Parser α} (localizes : Localizes parser phrase continuing bound)
    {before after : State} {result : α} (enough : before.cursor.rest.length < bound)
    (ran : parser.run before = .ok result after) :
    after.cursor.rest.length ≤ before.cursor.rest.length := by
  obtain ⟨read, passes, -⟩ := (localizes Texts.avoids_done enough).onward _ _ ran
  rw [passes.length]
  exact Nat.le_add_left _ _

/-- **Repetitions**, in states from which an item that is read leads to such a state again. -/
theorem Tracks.many {item? : Parser (Option α)} {texts : Texts} (good : State → Prop)
    (tracks : ∀ before, good before → Tracks (phrase.repeated ++ texts) item?
      (fun found => if found.isSome then phrase.repeated ++ texts else texts) before)
    (advances : ∀ before item after, good before → item?.run before = .ok (some item) after →
      after.cursor.rest.length < before.cursor.rest.length ∧ good after)
    {before : State} (begun : good before) (enough : before.cursor.rest.length < budget) :
    Tracks (phrase.repeated ++ texts) (Parser.many item? budget) (fun _ => texts) before := by
  induction budget generalizing before with
  | zero => omega
  | succ budget ih =>
      refine (tracks before begun).bind fun found read between ran passes => ?_
      cases found with
      | none => exact .pure rfl
      | some value =>
          obtain ⟨fewer, again⟩ := advances before value between begun ran
          refine (ih again (by omega)).bind fun _ _ _ _ _ => ?_
          exact .pure rfl

theorem LocalizesItem.many {item? : Parser (Option α)}
    (item : LocalizesItem item? phrase continuing bound) (enough : bound ≤ budget) :
    Localizes (Parser.many item? budget) phrase.repeated continuing bound := by
  intro texts before avoids within
  refine Tracks.many (fun state => state.cursor.rest.length < bound)
    (fun before within => item.tracks avoids within) (fun before value after within ran => ?_) within
    (by omega)
  have fewer := item.advances within ran
  exact ⟨fewer, by omega⟩

/-- An item behind a comma. -/
theorem Localizes.further {item : Parser α} (localizes : Localizes item phrase continuing bound)
    (ends : continuing (.symbol ',') = false) :
    LocalizesItem (Parser.further item) phrase.further
      (fun token => continuing token || token == .symbol ',') bound := by
  constructor
  · intro texts before avoids within
    have avoidsComma : texts.Avoids (· == .symbol ',') :=
      avoids.mono fun token comma => by rw [comma, Bool.or_true]
    have texts_eq : phrase.further.repeated ++ texts =
        (Phrase.symbol ',' ++ (phrase ++ (phrase.further.repeated ++ texts))) ∪ texts :=
      Texts.repeated_append.trans (by rw [Texts.further_append])
    refine .of_eq texts_eq (.eat_bind avoidsComma (fun after passes => ?_) (.pure rfl))
    exact .map (localizes (avoids.further ends) (passes.within within))
  · intro before item after within ran
    obtain ⟨between, comma, ranItem⟩ := further_eq_some ran
    have passes := Passes.of_reads comma
    have moved := localizes.length_le (passes.within within) ranItem
    rw [passes.length, List.length_singleton]
    omega

/-- **Lists with commas** between their items. -/
theorem Localizes.commaSeparated {item : Parser α}
    (localizes : Localizes item phrase continuing bound)
    (ends : continuing (.symbol ',') = false) (enough : bound ≤ budget) :
    Localizes (Parser.commaSeparated item budget) phrase.separated
      (fun token => continuing token || token == .symbol ',') bound := by
  intro texts before avoids within
  rw [Texts.separated_append]
  refine (localizes (avoids.further ends) within).bind fun _ _ _ _ passes => ?_
  refine ((localizes.further ends).many enough avoids (passes.within within)).bind fun _ _ _ _ _ => ?_
  exact .pure rfl

end Repetition

end JackToolchain.Jack

import JackToolchain.Proofs.Jack.WrittenClass
import JackToolchain.Proofs.Token.Vocabulary
import Mathlib.Data.Set.Basic

/-!
# Phrases

The tokens that the productions of the grammar spell, and the token lists that they begin.

## Main Definitions

* `Phrase` — the tokens that derivations of one kind spell.
* `Texts` — token lists, one of which can be written down; `phrase ++ texts` puts a derivation in front.
* `Phrase.repeated`, `Phrase.enclosed`, `Phrase.separated` — phrases made of others.
* `Expression.phrase`, `Statement.phrase`, `Class.phrase`, … — what each production spells.
* `behindName`, `behindFirst`, `behindWord`, `behindKind` — what may stand behind the token that begins an operand,
  a statement or a subroutine.
-/

namespace JackToolchain.Jack

/-! ## Texts -/

/-- The tokens that derivations of one kind spell, at least one of them by proper tokens. -/
structure Phrase (ω : Type) where
  tokens : ω → List Token
  proper : ∃ written, ∀ token ∈ tokens written, token.IsProper

/-- Token lists, at least one of which consists of proper tokens. -/
structure Texts where
  members : Set (List Token)
  proper : ∃ text ∈ members, ∀ token ∈ text, token.IsProper

instance : Membership (List Token) Texts := ⟨fun texts text => text ∈ texts.members⟩

/-- One text or another. -/
instance : Union Texts where
  union first second :=
    { members := first.members ∪ second.members
      proper := by
        obtain ⟨text, member, proper⟩ := first.proper
        exact ⟨text, .inl member, proper⟩ }

/-- A derivation with a text behind it. -/
instance {ω : Type} : HAppend (Phrase ω) Texts Texts where
  hAppend phrase texts :=
    { members := {text | ∃ written, ∃ behind ∈ texts, text = phrase.tokens written ++ behind}
      proper := by
        obtain ⟨written, proper⟩ := phrase.proper
        obtain ⟨text, member, properBehind⟩ := texts.proper
        exact ⟨_, ⟨written, text, member, rfl⟩, List.forall_mem_append.mpr ⟨proper, properBehind⟩⟩ }

/-- The end. -/
def Texts.done : Texts := ⟨{[]}, [], rfl, List.forall_mem_nil _⟩

theorem isName_x : IsName "x" := by decide

namespace Phrase

variable {ω : Type}

/-- One token. -/
def single (token : ω → Token) (proper : ∃ written, (token written).IsProper) : Phrase ω where
  tokens written := [token written]
  proper := by
    obtain ⟨written, proper⟩ := proper
    exact ⟨written, List.forall_mem_singleton.mpr proper⟩

/-- A reserved word. -/
def keyword (k : Keyword) : Phrase Unit := single (fun _ => .keyword k) ⟨(), trivial⟩

/-- A symbol. -/
def symbol (c : Char) (known : c ∈ symbols := by decide) : Phrase Unit :=
  single (fun _ => .symbol c) ⟨(), known⟩

/-- A name. -/
def name : Phrase String := single .identifier ⟨"x", isName_x⟩

/-- Derivations one after the other. -/
def repeated (phrase : Phrase ω) : Phrase (List ω) where
  tokens := List.flatMap phrase.tokens
  proper := ⟨[], List.forall_mem_nil _⟩

/-- A derivation between two symbols. -/
def enclosed (opening closing : Char) (phrase : Phrase ω)
    (known : opening ∈ symbols ∧ closing ∈ symbols := by decide) : Phrase ω where
  tokens written := .symbol opening :: (phrase.tokens written ++ [.symbol closing])
  proper := by
    obtain ⟨written, proper⟩ := phrase.proper
    refine ⟨written, List.forall_mem_cons.mpr ⟨known.1, List.forall_mem_append.mpr ⟨proper, ?_⟩⟩⟩
    exact List.forall_mem_singleton.mpr known.2

/-- A derivation behind a comma. -/
def further (phrase : Phrase ω) : Phrase ω where
  tokens written := .symbol ',' :: phrase.tokens written
  proper := by
    obtain ⟨written, proper⟩ := phrase.proper
    have known : (Token.symbol ',').IsProper := by
      show ',' ∈ symbols
      decide
    exact ⟨written, List.forall_mem_cons.mpr ⟨known, proper⟩⟩

/-- Derivations with commas between them. -/
def separated (phrase : Phrase ω) : Phrase (ω × List ω) where
  tokens list := phrase.tokens list.1 ++ list.2.flatMap phrase.further.tokens
  proper := by
    obtain ⟨written, proper⟩ := phrase.proper
    exact ⟨(written, []), List.forall_mem_append.mpr ⟨proper, List.forall_mem_nil _⟩⟩

end Phrase

namespace Written

/-! ## Expressions -/

/-- What an operand spells. -/
def Term.phrase : Phrase Term where
  tokens := Term.tokens
  proper := ⟨.null, List.forall_mem_singleton.mpr trivial⟩

/-- What an expression spells. -/
def Expression.phrase : Phrase Expression where
  tokens := Expression.tokens
  proper := ⟨.chain .null [], List.forall_mem_singleton.mpr trivial⟩

/-- What the arguments of a call spell. -/
def argumentsPhrase : Phrase (List Expression) where
  tokens := argumentTokens
  proper := ⟨[], List.forall_mem_nil _⟩

/-- What stands behind the first name of a call, given what stands behind the last one. -/
def behindOwner (texts : Texts) : Texts := (Phrase.symbol '.' ++ (Phrase.name ++ texts)) ∪ texts

/-- What stands behind the name that begins an operand. -/
def behindName (texts : Texts) : Texts :=
  (Expression.phrase.enclosed '[' ']' ++ texts) ∪
    (behindOwner (argumentsPhrase.enclosed '(' ')' ++ texts) ∪ texts)

/-- What stands behind the first token of an operand; none if no operand begins with the token. -/
def behindFirst (texts : Texts) : Token → Option Texts
  | .integer _ | .text _ => some texts
  | .keyword .true_ | .keyword .false_ | .keyword .null | .keyword .this => some texts
  | .identifier _ => some (behindName texts)
  | .symbol '(' => some (Expression.phrase ++ (Phrase.symbol ')' ++ texts))
  | .symbol c => (UnaryOperator.ofSymbol? c).map fun _ => Term.phrase ++ texts
  | _ => none

/-! ## Statements -/

/-- What a statement spells. -/
def Statement.phrase : Phrase Statement where
  tokens := Statement.tokens
  proper := by
    have known : (Token.symbol ';').IsProper := by
      show ';' ∈ symbols
      decide
    exact ⟨.leave none, List.forall_mem_cons.mpr ⟨trivial, List.forall_mem_singleton.mpr known⟩⟩

/-- What a condition spells. -/
def conditionPhrase : Phrase Expression := Expression.phrase.enclosed '(' ')'

/-- What a block spells. -/
def blockPhrase : Phrase (List Statement) := Statement.phrase.repeated.enclosed '{' '}'

/-- A value and the end of its statement. -/
def ended (texts : Texts) : Texts := Expression.phrase ++ (Phrase.symbol ';' ++ texts)

/-- What is assigned, and the end of the assignment. -/
def assigned (texts : Texts) : Texts := Phrase.symbol '=' ++ ended texts

/-- What stands behind the word that begins a statement; none if no statement begins with the word. -/
def behindWord (texts : Texts) : Keyword → Option Texts
  | .let_ =>
    some (Phrase.name ++ ((Expression.phrase.enclosed '[' ']' ++ assigned texts) ∪ assigned texts))
  | .if_ =>
    some (conditionPhrase ++ (blockPhrase ++
      ((Phrase.keyword .else_ ++ (blockPhrase ++ texts)) ∪ texts)))
  | .while_ => some (conditionPhrase ++ (blockPhrase ++ texts))
  | .do_ =>
    some (Phrase.name ++ behindOwner (argumentsPhrase.enclosed '(' ')' ++ (Phrase.symbol ';' ++ texts)))
  | .return_ => some (ended texts ∪ (Phrase.symbol ';' ++ texts))
  | _ => none

/-! ## Classes -/

/-- What a type spells. -/
def typePhrase : Phrase TypeName := .single TypeName.token ⟨.int, trivial⟩

/-- What a type of a result spells. -/
def returnedPhrase : Phrase (Option TypeName) := .single returnToken ⟨none, trivial⟩

/-- What variables of one type spell, behind the word that declares them. -/
def Variables.phrase : Phrase Variables where
  tokens := Variables.tokens
  proper := ⟨⟨.int, "x", []⟩, by simp [Variables.tokens, TypeName.token, Token.IsProper, isName_x, symbols]⟩

/-- What a declaration of statics or fields spells. -/
def ClassVariables.phrase : Phrase ClassVariables where
  tokens := ClassVariables.tokens
  proper := by
    obtain ⟨group, proper⟩ := Variables.phrase.proper
    exact ⟨⟨true, group⟩, List.forall_mem_cons.mpr ⟨trivial, proper⟩⟩

/-- What a declaration of locals spells. -/
def localsPhrase : Phrase Variables where
  tokens group := .keyword .var :: group.tokens
  proper := by
    obtain ⟨group, proper⟩ := Variables.phrase.proper
    exact ⟨group, List.forall_mem_cons.mpr ⟨trivial, proper⟩⟩

/-- What a parameter spells. -/
def Parameter.phrase : Phrase Parameter where
  tokens := Parameter.tokens
  proper := ⟨⟨.int, "x"⟩, by simp [Parameter.tokens, TypeName.token, Token.IsProper, isName_x]⟩

/-- What parameters spell. -/
def parametersPhrase : Phrase (List Parameter) where
  tokens := parameterTokens
  proper := ⟨[], List.forall_mem_nil _⟩

/-- What a subroutine spells. -/
def Subroutine.phrase : Phrase Subroutine where
  tokens := Subroutine.tokens
  proper := ⟨⟨.function, none, "x", [], [], []⟩, by
    simp [Subroutine.tokens, parameterTokens, statementTokens, returnToken, Token.IsProper, isName_x,
      symbols]⟩

/-- What a class spells. -/
def Class.phrase : Phrase Class where
  tokens := Class.tokens
  proper := ⟨⟨"x", [], []⟩, by simp [Class.tokens, Token.IsProper, isName_x, symbols]⟩

/-- What stands behind the word that begins a subroutine. -/
def behindKind (texts : Texts) : Texts :=
  returnedPhrase ++ (Phrase.name ++ (Phrase.symbol '(' ++ (parametersPhrase ++ (Phrase.symbol ')' ++
    (Phrase.symbol '{' ++ (localsPhrase.repeated ++ (Statement.phrase.repeated ++
      (Phrase.symbol '}' ++ texts))))))))

end Written

end JackToolchain.Jack

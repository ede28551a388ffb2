import JackToolchain.Proofs.Token.LexicalGrammar

/-!
# Spelling tokens

Every list of proper tokens is that of some text.

## Main Definitions

* `Token.lexeme` — the piece of text that stands for a token.
* `spell` — the lexemes of tokens with a space in front of each, on one line.

## Main Statements

* `Token.IsProper.isLexeme` — in front of a space or the end of a text, the lexeme of a proper token is one.
* `tokenize_spell` — what is spelled is read back.
-/

namespace JackToolchain

open Lexer Text

/-- The piece of text that stands for a token. -/
def Token.lexeme : Token → List Char
  | .keyword word => word.text.toList
  | .symbol c => [c]
  | .integer value => Nat.toDigits 10 value
  | .text content => '"' :: (content.toList ++ ['"'])
  | .identifier name => name.toList

/-- The lexemes of tokens on one line, with a space in front of each. -/
def spelling (tokens : List Token) : List Char := tokens.flatMap fun token => ' ' :: token.lexeme

/-- The text that is spelled by tokens. -/
def spell (tokens : List Token) : String := String.ofList (spelling tokens)

section Spelling

variable {token : Token} {tokens : List Token}

/-- Behind a lexeme there is a space, or nothing. -/
theorem head?_spelling {c : Char} (next : c ∈ (spelling tokens).head?) : c = ' ' := by
  cases tokens with
  | nil => cases next
  | cons token tokens => exact (Option.some.inj next).symm

/-- **The lexeme of a proper token** is one, if what stands behind it does not continue it. -/
theorem Token.IsProper.isLexeme (proper : token.IsProper) (tokens : List Token) :
    Lexeme (spelling tokens) token.lexeme token := by
  have ends {p : Char → Bool} (space : p ' ' = false) : ∀ c ∈ (spelling tokens).head?, p c = false := by
    intro c next
    rw [head?_spelling next, space]
  cases token with
  | keyword word => exact .keyword (ends rfl)
  | identifier name => exact .identifier proper (ends rfl)
  | symbol c =>
      refine .symbol proper fun _ => ⟨fun next => ?_, fun next => ?_⟩
      · exact absurd (head?_spelling next) (by decide)
      · exact absurd (head?_spelling next) (by decide)
  | integer value =>
      have digits : ∀ c ∈ Nat.toDigits 10 value, c.isDigit = true := fun c =>
        Nat.isDigit_of_mem_toDigits (b := 10) (by decide) (by decide)
      have small : decimalValue (Nat.toDigits 10 value) ≤ largestConstant := by
        rw [decimalValue_toDigits]
        exact proper
      have isLexeme := Lexeme.integer Nat.toDigits_ne_nil digits (ends rfl) small
      rwa [decimalValue_toDigits] at isLexeme
  | text content =>
      refine .text (fun member => ?_) fun member => ?_
      · exact (isStringPart_iff.mp (proper _ member)).1 rfl
      · exact (isStringPart_iff.mp (proper _ member)).2 rfl

/-- What is spelled falls into its lexemes, with a space in front of each. -/
theorem splits_spelling (proper : ∀ token ∈ tokens, token.IsProper) {front : List Char}
    (oneLine : '\n' ∉ front) : Splits front (spelling tokens) (tokens.map (⟨·, 1⟩)) := by
  induction tokens generalizing front with
  | nil => exact .last .nothing
  | cons token tokens ih =>
      obtain ⟨here, others⟩ := List.forall_mem_cons.mp proper
      have isLexeme := here.isLexeme tokens
      have inFront : '\n' ∉ front ++ [' '] := by simp [oneLine]
      have behind : '\n' ∉ front ++ [' '] ++ token.lexeme := by
        rw [List.mem_append, not_or]
        exact ⟨inFront, isLexeme.oneLine⟩
      have splits := Splits.lexeme (.blank (by decide) .nothing) isLexeme (ih others behind)
      rwa [List.count_eq_zero_of_not_mem inFront] at splits

/-- **What is spelled is read back**: the tokens stand on the first line. -/
theorem tokenize_spell (proper : ∀ token ∈ tokens, token.IsProper) :
    tokenize (spell tokens) = .ok (tokens.map (⟨·, 1⟩)) := by
  refine mapM_id_eq_ok_iff.mpr ?_
  have items := (splits_spelling proper List.not_mem_nil).items_eq
  rw [spell, String.toList_ofList]
  exact items

end Spelling

end JackToolchain

import JackToolchain.Hack.Assembler
import JackToolchain.Proofs.Text.Words

/-!
# Symbols

Which names are symbols of the assembly.

## Main Statements

* `isPlain_of_isSymbol`, `isWord_of_isSymbol` — symbols hold no blanks, nor the character that begins a
  comment.
* `isSymbol_append` — a symbol stays one with more characters of symbols behind it.
* `isSymbol_joined`, `isSymbol_numbered` — so do two names with a character of symbols between them, and a
  symbol with a number behind it.
-/

namespace JackToolchain.Hack

open Text

/-! ## Characters -/

/-- The codes of characters of symbols. -/
theorem toNat_of_isSymbolCharacter {c : Char} (character : isSymbolCharacter c = true) :
    32 < c.toNat ∧ c.toNat < 127 ∧ c.toNat ≠ 47 := by
  have letter (low high : Nat) (within : low ≤ c.toNat ∧ c.toNat ≤ high) (above : 47 < low)
      (below : high < 127) : 32 < c.toNat ∧ c.toNat < 127 ∧ c.toNat ≠ 47 := by omega
  unfold isSymbolCharacter Char.isAlphanum Char.isAlpha at character
  simp only [Bool.or_eq_true, beq_iff_eq] at character
  rcases character with ((((((upper | lower) | digit) | rfl) | rfl) | rfl) | rfl)
  · obtain ⟨low, high⟩ : 'A' ≤ c ∧ c ≤ 'Z' := of_decide_eq_true upper
    exact letter 65 90 ⟨UInt32.le_iff_toNat_le.mp low, UInt32.le_iff_toNat_le.mp high⟩ (by decide)
      (by decide)
  · obtain ⟨low, high⟩ : decide ('a' ≤ c) = true ∧ decide (c ≤ 'z') = true :=
      Bool.and_eq_true_iff.mp lower
    exact letter 97 122 ⟨UInt32.le_iff_toNat_le.mp (of_decide_eq_true low),
      UInt32.le_iff_toNat_le.mp (of_decide_eq_true high)⟩ (by decide) (by decide)
  · exact letter 48 57 (Char.isDigit_iff_toNat.mp digit) (by decide) (by decide)
  · decide
  · decide
  · decide
  · decide

theorem isSymbolCharacter_of_isDigit {c : Char} (digit : c.isDigit = true) :
    isSymbolCharacter c = true := by
  simp [isSymbolCharacter, Char.isAlphanum, digit]

/-! ## Names -/

/-- A symbol is a name of characters of symbols that begins with another one than a digit. -/
theorem isSymbol_iff {cs : List Char} : isSymbol cs = true ↔
    (∃ c ∈ cs.head?, c.isDigit = false) ∧ ∀ c ∈ cs, isSymbolCharacter c = true := by
  cases cs with
  | nil => simp [isSymbol]
  | cons c rest => simp [isSymbol, and_assoc]

/-- **More characters** behind a symbol. -/
theorem isSymbol_append {front behind : List Char} (symbol : isSymbol front = true)
    (characters : ∀ c ∈ behind, isSymbolCharacter c = true) : isSymbol (front ++ behind) = true := by
  obtain ⟨⟨c, first, noDigit⟩, all⟩ := isSymbol_iff.mp symbol
  refine isSymbol_iff.mpr ⟨⟨c, ?_, noDigit⟩, List.forall_mem_append.mpr ⟨all, characters⟩⟩
  rw [List.head?_append, first]
  rfl

theorem isSymbolCharacter_of_isSymbol {cs : List Char} (symbol : isSymbol cs = true) :
    ∀ c ∈ cs, isSymbolCharacter c = true :=
  (isSymbol_iff.mp symbol).2

/-- A symbol is not taken for a number. -/
theorem not_isDigit_of_isSymbol {cs : List Char} (symbol : isSymbol cs = true) :
    cs.head?.any Char.isDigit = false := by
  obtain ⟨⟨c, first, noDigit⟩, -⟩ := isSymbol_iff.mp symbol
  rw [first]
  exact noDigit

/-- Symbols are plain… -/
theorem isPlain_of_isSymbol {cs : List Char} (symbol : isSymbol cs = true) : IsPlain cs :=
  isPlain_of_visible fun c member =>
    toNat_of_isSymbolCharacter (isSymbolCharacter_of_isSymbol symbol c member)

/-- …and words. -/
theorem isWord_of_isSymbol {name : String} (symbol : isSymbol name.toList = true) : IsWord name := by
  refine (isPlain_of_isSymbol symbol).isWord ?_
  intro empty
  rw [empty] at symbol
  exact Bool.false_ne_true symbol

/-- **Two names** with a word between them. -/
theorem isSymbol_joined {first second : String} (word : String)
    (symbol : isSymbol first.toList = true)
    (between : word.toList.all isSymbolCharacter = true)
    (characters : ∀ c ∈ second.toList, isSymbolCharacter c = true) :
    isSymbol (first ++ word ++ second).toList = true := by
  rw [String.toList_append, String.toList_append]
  exact isSymbol_append (isSymbol_append symbol (List.all_eq_true.mp between)) characters

/-- **A number** behind a symbol. -/
theorem isSymbol_numbered (word : String) (number : Nat) (symbol : isSymbol word.toList = true) :
    isSymbol (word ++ toString number).toList = true := by
  rw [String.toList_append]
  exact isSymbol_append symbol fun c member =>
    isSymbolCharacter_of_isDigit (isDigit_of_mem_numeral member)

end JackToolchain.Hack

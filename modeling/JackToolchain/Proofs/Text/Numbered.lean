import JackToolchain.Text.Numeral

/-!
# Numbered words

A word with a decimal numeral behind it.

## Main Statements

* `toList_numbered` — how a numbered word is spelled.
* `filter_isDigit_numbered` — the digits of a numbered word are those of its number, if the word itself
  has none.
* `numbered_injective`, `numbered_ne` — the number can be read back, and so can the word.
* `natural?_toString` — a numeral is read as the number it writes.
-/

namespace JackToolchain.Text

/-- A number is spelled behind a word by its digits. -/
theorem toList_numbered (word : String) (number : Nat) :
    (word ++ toString number).toList = word.toList ++ Nat.toDigits 10 number := by
  rw [String.toList_append, Nat.toString_eq_ofList_toDigits, String.toList_ofList]

/-- Different numbers are spelled differently. -/
theorem toDigits_inj {number other : Nat} (same : Nat.toDigits 10 number = Nat.toDigits 10 other) :
    number = other := by
  have read : Nat.ofDigitChars 10 (Nat.toDigits 10 number) 0 =
      Nat.ofDigitChars 10 (Nat.toDigits 10 other) 0 := by rw [same]
  rwa [Nat.ofDigitChars_ten_toDigits, Nat.ofDigitChars_ten_toDigits] at read

/-- A numeral consists of digits. -/
theorem isDigit_of_mem_numeral {number : Nat} {c : Char} (member : c ∈ (toString number).toList) :
    c.isDigit = true := by
  rw [Nat.toString_eq_ofList_toDigits, String.toList_ofList] at member
  exact Nat.isDigit_of_mem_toDigits (b := 10) (by decide) (by decide) member

/-- A numeral begins with a digit. -/
theorem head?_numeral (number : Nat) : (toString number).toList.head?.any Char.isDigit = true := by
  cases spelled : (toString number).toList with
  | nil =>
      rw [Nat.toString_eq_ofList_toDigits, String.toList_ofList] at spelled
      exact absurd spelled Nat.toDigits_ne_nil
  | cons c rest =>
      have member : c ∈ (toString number).toList := spelled ▸ List.mem_cons_self
      exact isDigit_of_mem_numeral member

/-- The digits of a numbered word are those of its number. -/
theorem filter_isDigit_numbered (word : String) (number : Nat)
    (noDigit : word.toList.filter (·.isDigit) = []) :
    (word ++ toString number).toList.filter (·.isDigit) = Nat.toDigits 10 number := by
  rw [toList_numbered, List.filter_append, noDigit, List.nil_append, List.filter_eq_self]
  intro c inDigits
  exact Nat.isDigit_of_mem_toDigits (b := 10) (by decide) (by decide) inDigits

/-- **The number behind a word** can be read back. -/
theorem numbered_injective (word : String) {number other : Nat}
    (same : word ++ toString number = word ++ toString other) : number = other := by
  have spelled := congrArg String.toList same
  rw [toList_numbered, toList_numbered] at spelled
  exact toDigits_inj (List.append_cancel_left spelled)

/-- **The word in front of a number** can be read back, if it has no digits. -/
theorem numbered_ne (word other : String) (number number' : Nat)
    (noDigit : word.toList.filter (·.isDigit) = [])
    (noDigit' : other.toList.filter (·.isDigit) = []) (different : word ≠ other) :
    word ++ toString number ≠ other ++ toString number' := by
  have front {word : String} (number : Nat) (noDigit : word.toList.filter (·.isDigit) = []) :
      (word ++ toString number).toList.filter (!·.isDigit) = word.toList := by
    have numeral : (Nat.toDigits 10 number).filter (!·.isDigit) = [] := by
      refine List.filter_eq_nil_iff.mpr fun c inDigits => ?_
      rw [Nat.isDigit_of_mem_toDigits (b := 10) (by decide) (by decide) inDigits]
      exact Bool.false_ne_true
    rw [toList_numbered, List.filter_append, numeral, List.append_nil, List.filter_eq_self]
    intro c member
    rw [Bool.not_eq_true']
    exact Bool.eq_false_iff.mpr (List.filter_eq_nil_iff.mp noDigit c member)
  intro same
  refine different (String.toList_inj.mp ?_)
  rw [← front number noDigit, ← front number' noDigit', same]

/-! ## Numerals -/

/-- The two ways of reading digits agree. -/
theorem foldl_addDigit_eq (digits : List Char) (value : Nat) :
    digits.foldl addDigit value = Nat.ofDigitChars 10 digits value := by
  induction digits generalizing value with
  | nil => rfl
  | cons digit rest ih => exact ih _

/-- **The value of a numeral** is the number it writes. -/
theorem decimalValue_toDigits (number : Nat) : decimalValue (Nat.toDigits 10 number) = number := by
  rw [decimalValue, foldl_addDigit_eq, Nat.ofDigitChars_ten_toDigits]

/-- **A numeral** is read as the number it writes. -/
theorem natural?_toString {limit number : Nat} (small : number ≤ limit) :
    natural? limit (toString number).toList = some number := by
  have digits {c : Char} (member : c ∈ (toString number).toList) := isDigit_of_mem_numeral member
  have spelled : (toString number).toList = Nat.toDigits 10 number := by
    rw [Nat.toString_eq_ofList_toDigits, String.toList_ofList]
  have value : decimalValue (toString number).toList = number := by
    rw [spelled, decimalValue_toDigits]
  have noSign : dropPlus (toString number).toList = (toString number).toList := by
    unfold dropPlus
    split
    · rename_i rest signed
      have member : '+' ∈ (toString number).toList := by
        rw [signed]
        exact List.mem_cons_self
      exact absurd (digits member) (by decide)
    · rfl
  have nonempty : (toString number).toList ≠ [] := by
    rw [spelled]
    exact Nat.toDigits_ne_nil
  unfold natural?
  rw [noSign]
  dsimp only
  rw [boundedValue?_eq, value, if_pos small, if_neg]
  rw [Bool.or_eq_true, not_or, List.isEmpty_iff, Bool.not_eq_true', Bool.not_eq_false,
    List.all_eq_true]
  exact ⟨nonempty, fun c member => digits member⟩

end JackToolchain.Text

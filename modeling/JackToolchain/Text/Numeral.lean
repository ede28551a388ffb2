/-!
# Numerals

Decimal numerals with an upper bound.

* `decimalValue` — the number that a list of digits denotes.
* `boundedValue?` — that number, if it is within a bound.
* `natural?` — a numeral as operands of an instruction and constants of the assembler are written:
  an optional plus sign, then at least one digit, the value within a bound.
-/

namespace JackToolchain.Text

/-- The number denoted by a numeral with one more digit behind. -/
def addDigit (value : Nat) (digit : Char) : Nat := 10 * value + (digit.toNat - '0'.toNat)

/-- The number denoted by ASCII digits, the most significant first. -/
def decimalValue (digits : List Char) : Nat := digits.foldl addDigit 0

/-- One more digit, as long as the number stays within a bound. -/
def addDigit? (limit value : Nat) (digit : Char) : Option Nat :=
  if addDigit value digit ≤ limit then some (addDigit value digit) else none

/-- The number denoted by digits, if it is at most `limit`.  A number only grows with its digits, so
those behind the place where it exceeds the bound are not looked at. -/
def boundedValue? (limit : Nat) (digits : List Char) : Option Nat :=
  digits.foldlM (addDigit? limit) 0

/-- One more digit makes no number smaller. -/
theorem le_addDigit (value : Nat) (digit : Char) : value ≤ addDigit value digit := by
  unfold addDigit
  omega

/-- More digits make no number smaller. -/
theorem le_foldl_addDigit (digits : List Char) (value : Nat) :
    value ≤ digits.foldl addDigit value := by
  induction digits generalizing value with
  | nil => simp
  | cons digit rest ih => exact Nat.le_trans (le_addDigit value digit) (ih _)

/-- Digits behind a number, within the bound and without it. -/
theorem foldlM_addDigit? (limit : Nat) (digits : List Char) (value : Nat) (h : value ≤ limit) :
    digits.foldlM (addDigit? limit) value =
      if digits.foldl addDigit value ≤ limit then some (digits.foldl addDigit value)
      else none := by
  induction digits generalizing value with
  | nil => simp [h]
  | cons digit rest ih =>
    simp only [List.foldlM_cons, List.foldl_cons, addDigit?]
    by_cases bounded : addDigit value digit ≤ limit
    · rw [if_pos bounded]
      exact ih _ bounded
    · have exceeded : ¬rest.foldl addDigit (addDigit value digit) ≤ limit :=
        fun small => bounded (Nat.le_trans (le_foldl_addDigit rest _) small)
      simp [bounded, exceeded]

/-- **The bounded value** of digits is their value, where that is within the bound. -/
theorem boundedValue?_eq (limit : Nat) (digits : List Char) :
    boundedValue? limit digits =
      if decimalValue digits ≤ limit then some (decimalValue digits) else none :=
  foldlM_addDigit? limit digits 0 (Nat.zero_le _)

/-- The numeral without its plus sign, if it has one. -/
def dropPlus : List Char → List Char
  | '+' :: rest => rest
  | cs => cs

/-- **A bounded numeral.**  One plus sign may stand in front; leading zeros change nothing; a value
above `limit` is no numeral. -/
def natural? (limit : Nat) (cs : List Char) : Option Nat :=
  let digits := dropPlus cs
  if digits.isEmpty || !digits.all Char.isDigit then none
  else boundedValue? limit digits

/-- A numeral that is read lies within the bound. -/
theorem natural?_le {limit value : Nat} {cs : List Char} (h : natural? limit cs = some value) :
    value ≤ limit := by
  unfold natural? at h
  simp only [boundedValue?_eq] at h
  split at h
  · simp at h
  · split at h
    · rename_i _ bounded
      simp only [Option.some.injEq] at h
      exact h ▸ bounded
    · simp at h

end JackToolchain.Text

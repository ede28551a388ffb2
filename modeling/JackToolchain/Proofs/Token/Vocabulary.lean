import JackToolchain.Proofs.Text.Lines
import JackToolchain.Token.Lexer

/-!
# The vocabulary

Which tokens a text can fall into, and how the tokens of a given text are computed.

## Main Definitions

* `IsName` — the spelling of a name: a letter or an underscore, then letters, digits and underscores,
  and not a reserved word.
* `Token.IsProper` — a token that stands for some piece of text.
* `Lexer.itemsWithin` — the tokens and faults of a text, up to a number of them.

## Main Statements

* `isProper_of_tokenize`, `isProper_of_spelled` — every token of a text is proper.
* `tokenize_ofList` — characters have at most as many tokens and faults.

## Design Notes

Tokens are read for as long as characters are left, and this recursion is not unfolded when a given text is read.
The one that counts down is, so what a text falls into is shown by computing, once it is given by its characters.
-/

namespace JackToolchain

open Lexer

/-- The spelling of a name. -/
structure IsName (name : String) : Prop where
  first : ∃ c rest, name.toList = c :: rest ∧ isWordStart c = true
  parts : ∀ c ∈ name.toList, isWordPart c = true
  unreserved : ∀ k : Keyword, name ≠ k.text

/-- A name is read off its characters: a word that is spelled like no reserved one. -/
theorem isName_iff {name : String} : IsName name ↔ name.toList.head?.any isWordStart = true ∧
    name.toList.all isWordPart = true ∧ Keyword.ofText? name = none := by
  constructor
  · intro isName
    obtain ⟨c, rest, spelled, start⟩ := isName.first
    refine ⟨by rw [spelled]; exact start, List.all_eq_true.mpr isName.parts,
      Option.eq_none_iff_forall_ne_some.mpr fun k found => ?_⟩
    exact isName.unreserved k (Keyword.text_of_ofText? found).symm
  · rintro ⟨first, parts, unreserved⟩
    refine ⟨?_, List.all_eq_true.mp parts, ?_⟩
    · cases spelled : name.toList with
      | nil =>
          rw [spelled] at first
          exact absurd first Bool.false_ne_true
      | cons c rest =>
          rw [spelled] at first
          exact ⟨c, rest, rfl, first⟩
    · rintro k rfl
      exact Option.some_ne_none k ((Keyword.ofText?_text k).symm.trans unreserved)

instance (name : String) : Decidable (IsName name) := decidable_of_iff' _ isName_iff

/-- **Proper tokens.** -/
def Token.IsProper : Token → Prop
  | .keyword _ => True
  | .symbol c => c ∈ symbols
  | .integer value => value ≤ largestConstant
  | .text content => ∀ c ∈ content.toList, isStringPart c = true
  | .identifier name => IsName name

instance (token : Token) : Decidable token.IsProper :=
  match token with
  | .keyword _ => inferInstanceAs (Decidable True)
  | .symbol c => inferInstanceAs (Decidable (c ∈ symbols))
  | .integer value => inferInstanceAs (Decidable (value ≤ largestConstant))
  | .text content => decidable_of_iff (content.toList.all isStringPart = true) List.all_eq_true
  | .identifier name => inferInstanceAs (Decidable (IsName name))

namespace Lexer

/-- The codes of first characters of words. -/
theorem toNat_of_isWordStart {c : Char} (start : isWordStart c = true) : 65 ≤ c.toNat ∧ c.toNat ≤ 122 := by
  unfold isWordStart Char.isAlpha Char.isUpper Char.isLower at start
  simp only [Bool.or_eq_true, beq_iff_eq] at start
  rcases start with (upper | lower) | rfl
  · have within : 65 ≤ c.toNat ∧ c.toNat ≤ 90 := by
      simpa [UInt32.le_iff_toNat_le] using upper
    omega
  · have within : 97 ≤ c.toNat ∧ c.toNat ≤ 122 := by
      simpa [UInt32.le_iff_toNat_le] using lower
    omega
  · decide

theorem isWordPart_of_isWordStart {c : Char} (start : isWordStart c = true) :
    isWordPart c = true := by
  unfold isWordStart at start
  unfold isWordPart Char.isAlphanum
  rw [Bool.or_eq_true] at start
  rcases start with letter | underscore
  · rw [letter]
    rfl
  · rw [underscore, Bool.or_true]

/-- A word is a reserved word or a name. -/
theorem isProper_classifyWord {c : Char} (rest : List Char) (start : isWordStart c = true) :
    (classifyWord (String.ofList (c :: rest.takeWhile isWordPart))).IsProper := by
  unfold classifyWord
  split
  · exact trivial
  · rename_i noWord
    refine ⟨⟨c, _, String.toList_ofList, start⟩, ?_, ?_⟩
    · rw [String.toList_ofList]
      rintro part (_ | ⟨_, member⟩)
      · exact isWordPart_of_isWordStart start
      · exact List.all_eq_true.mp List.all_takeWhile _ member
    · rintro k same
      rw [same, Keyword.ofText?_text] at noWord
      exact Option.some_ne_none k noWord

/-- An integer constant is within the bound. -/
theorem isProper_readInteger {digits : List Char} {token : Token}
    (read : readInteger digits = .ok token) : token.IsProper := by
  unfold readInteger at read
  rw [Text.boundedValue?_eq] at read
  split at read
  · rename_i value bounded
    obtain rfl := Except.ok.inj read
    split at bounded
    · rename_i small
      obtain rfl := Option.some.inj bounded
      exact small
    · exact absurd bounded.symm (Option.some_ne_none value)
  · exact absurd read (by rintro ⟨⟩)

/-- A string constant holds neither its delimiter nor an end of line. -/
theorem isProper_readString {line : Nat} {cs : List Char} {token : Token}
    (read : (readString line cs).1 = .ok token) : token.IsProper := by
  unfold readString at read
  dsimp only at read
  split at read
  · exact absurd read (by rintro ⟨⟩)
  · exact absurd read (by rintro ⟨⟩)
  · obtain rfl := Except.ok.inj read
    intro c member
    rw [String.toList_ofList] at member
    exact List.all_eq_true.mp List.all_takeWhile _ member

/-- One token is proper. -/
theorem isProper_next {line : Nat} {c : Char} {rest : List Char} {token : Token}
    (read : (next line c rest).1 = .ok token) : token.IsProper := by
  unfold next at read
  split at read
  · exact isProper_readString read
  · split at read
    · rename_i isSymbol
      obtain rfl := Except.ok.inj read
      exact List.contains_iff_mem.mp isSymbol
    · split at read
      · exact isProper_readInteger read
      · split at read
        · rename_i start
          obtain rfl := Except.ok.inj read
          exact isProper_classifyWord rest start
        · exact absurd read (by rintro ⟨⟩)

/-- So is each of the tokens between which a text may have faults. -/
theorem isProper_of_mem_items {position : Position} {located : Located}
    (member : Except.ok located ∈ items position) : located.token.IsProper := by
  fun_induction items position with
  | case1 => exact absurd member (by simp)
  | case2 => exact absurd member List.not_mem_nil
  | case3 position c rest line skipped reading ih =>
      rcases List.mem_cons.mp member with here | behind
      · cases read : reading.1 with
        | error cause =>
            rw [read] at here
            exact absurd here (by simp [locate])
        | ok token =>
            rw [read] at here
            obtain rfl := Except.ok.inj here
            exact isProper_next read
      · exact ih behind

/-- Tokens and faults of a text, up to a number of them. -/
def itemsWithin : Nat → Position → List (Except Error Located)
  | 0, _ => []
  | bound + 1, position =>
    match skip .blanks position.line position.rest with
    | .error start => [.error (.lexical start .unterminatedComment)]
    | .ok ⟨[], _⟩ => []
    | .ok ⟨c :: rest, line⟩ =>
      let reading := next line c rest
      locate line reading.1 :: itemsWithin bound reading.2

/-- Every one of them takes a character. -/
theorem items_eq_itemsWithin {bound : Nat} {position : Position} (enough : position.rest.length < bound) :
    items position = itemsWithin bound position := by
  induction bound generalizing position with
  | zero => exact absurd enough (Nat.not_lt_zero _)
  | succ bound ih =>
      rw [items, itemsWithin]
      split
      · rename_i start skipped
        rw [skipped]
      · rename_i line skipped
        rw [skipped]
      · rename_i c rest line skipped
        have read := length_next_le line c rest
        have left := length_skip_le skipped
        rw [List.length_cons] at left
        rw [skipped]
        exact congrArg _ (ih (by omega))

end Lexer

section Texts

variable {source : String} {tokens : List Located}

/-- **The tokens of given characters** are at most as many. -/
theorem tokenize_ofList (cs : List Char) :
    tokenize (String.ofList cs) = (itemsWithin (cs.length + 1) ⟨cs, 1⟩).mapM id := by
  rw [tokenize, String.toList_ofList, items_eq_itemsWithin (Nat.lt_succ_self _)]

/-- **Every token of a text is proper.** -/
theorem isProper_of_tokenize (read : tokenize source = .ok tokens) :
    ∀ located ∈ tokens, located.token.IsProper := by
  intro located member
  obtain ⟨item, inItems, rfl⟩ := Text.exists_of_mapM read member
  exact isProper_of_mem_items inItems

/-- Whatever is spelled by a text consists of proper tokens. -/
theorem isProper_of_spelled {spelling : List Token} (read : tokenize source = .ok tokens)
    (spelled : tokens.map (·.token) = spelling) : ∀ token ∈ spelling, token.IsProper := by
  rw [← spelled]
  exact List.forall_mem_map.mpr (isProper_of_tokenize read)

end Texts

end JackToolchain

import JackToolchain.Proofs.Results
import JackToolchain.Proofs.Text.Words
import JackToolchain.Proofs.Token.Vocabulary

/-!
# The lexical grammar

A text is read without faults exactly where it is lexemes with gaps between them, and its tokens are what the lexemes
stand for.

## Main Definitions

* `Gap` — blanks and comments, in front of what stands behind them.
* `Lexeme` — a piece of text that stands for a token, in front of what stands behind it.
* `Splits` — a text falls into gaps and lexemes.

## Main Statements

* `Gap.skip_append`, `exists_gap` — gaps are what is skipped.
* `Lexeme.next_eq`, `exists_lexeme` — lexemes are what is read as a token.
* `tokenize_eq_ok_iff` — the tokens of a text are those of the lexemes into which it falls.

## Design Notes

Whether a piece of text is a gap or a lexeme depends on what stands behind it: a comment without a line feed ends
with the text only, words and integers end where they cannot go on, and a stroke in front of another one is not a
lexeme.  Both relations therefore have the text behind as a parameter.  They do not mention how the reader proceeds.
-/

namespace JackToolchain.Lexer

open Text

/-! ## Gaps -/

/-- **Gaps**: blanks, comments through the next line feed or to the end of the text, and comments through the first
closing mark behind their opening mark, as many as there are, in front of the text behind them. -/
inductive Gap (behind : List Char) : List Char → Prop
  | nothing : Gap behind []
  | blank {c : Char} {gap : List Char} : isBlank c = true → Gap behind gap → Gap behind (c :: gap)
  | line {comment gap : List Char} : '\n' ∉ comment → Gap behind gap →
      Gap behind ('/' :: '/' :: (comment ++ '\n' :: gap))
  | lastLine {comment : List Char} : '\n' ∉ comment → behind = [] → Gap behind ('/' :: '/' :: comment)
  | block {comment gap : List Char} : ¬['*', '/'] <:+: comment → Gap behind gap →
      Gap behind ('/' :: '*' :: (comment ++ '*' :: '/' :: gap))

/-- **Standing.**  A text that begins with neither a blank nor a comment. -/
def Stands (cs : List Char) : Prop :=
  ∀ c rest, cs = c :: rest → isBlank c = false ∧ (c = '/' → rest.head? ≠ some '/' ∧ rest.head? ≠ some '*')

/-- The end of a text stands. -/
theorem stands_nil : Stands [] := by
  rintro _ _ ⟨⟩

/-- The number of the line behind some text. -/
def linesAfter (line : Nat) (cs : List Char) : Nat := line + cs.count '\n'

@[simp] theorem linesAfter_nil (line : Nat) : linesAfter line [] = line := rfl

@[simp] theorem linesAfter_cons (line : Nat) (c : Char) (cs : List Char) :
    linesAfter line (c :: cs) = linesAfter (lineAfter line c) cs := by
  unfold linesAfter lineAfter
  rw [List.count_cons]
  by_cases feed : c = '\n'
  · simp [feed]; omega
  · simp [feed]

@[simp] theorem linesAfter_append (line : Nat) (front behind : List Char) :
    linesAfter line (front ++ behind) = linesAfter (linesAfter line front) behind := by
  unfold linesAfter
  rw [List.count_append, Nat.add_assoc]

/-- Text on one line. -/
theorem linesAfter_of_notMem {cs : List Char} (oneLine : '\n' ∉ cs) (line : Nat) : linesAfter line cs = line := by
  rw [linesAfter, List.count_eq_zero.mpr oneLine, Nat.add_zero]

/-! ### Gaps are skipped -/

section Skip

variable {line : Nat}

/-- What stands is not skipped. -/
theorem Stands.skip_eq {cs : List Char} (stands : Stands cs) : skip .blanks line cs = .ok ⟨cs, line⟩ := by
  cases cs with
  | nil => rfl
  | cons c rest =>
      obtain ⟨visible, noComment⟩ := stands c rest rfl
      rw [skip, visible]
      · rfl
      · rintro behind rfl rfl
        exact (noComment rfl).1 rfl
      · rintro behind rfl rfl
        exact (noComment rfl).2 rfl

/-- A blank is skipped. -/
theorem skip_blank {c : Char} (blank : isBlank c = true) (rest : List Char) :
    skip .blanks line (c :: rest) = skip .blanks (lineAfter line c) rest := by
  have noStroke : c ≠ '/' := by
    rintro rfl
    exact absurd blank (by decide)
  rw [skip, if_pos blank]
  · exact fun _ stroke => absurd stroke noStroke
  · exact fun _ stroke => absurd stroke noStroke

/-- The text of a comment to the end of its line is skipped. -/
theorem skip_lineComment {comment : List Char} (oneLine : '\n' ∉ comment) (behind : List Char) :
    skip .lineComment line (comment ++ behind) = skip .lineComment line behind := by
  induction comment with
  | nil => rfl
  | cons c comment ih =>
      rw [List.mem_cons, not_or] at oneLine
      have other : c ≠ '\n' := Ne.symm oneLine.1
      rw [List.cons_append, skip, if_neg other, lineAfter, if_neg other, ih oneLine.2]

/-- The text of a comment is skipped through the first closing mark. -/
theorem skip_blockComment {comment : List Char} (noMark : ¬['*', '/'] <:+: comment) (start : Nat)
    (behind : List Char) : skip (.blockComment start) line (comment ++ '*' :: '/' :: behind) =
      skip .blanks (linesAfter line comment) behind := by
  induction comment generalizing line with
  | nil => rfl
  | cons c comment ih =>
      rw [List.infix_cons_iff, not_or] at noMark
      rw [List.cons_append, skip, ih noMark.2, linesAfter_cons]
      -- the mark begins neither with this character nor in front of it
      rintro rest rfl same
      cases comment with
      | nil => exact absurd (List.cons.inj same).1 (by decide)
      | cons d comment =>
          obtain ⟨rfl, -⟩ := List.cons.inj same
          exact noMark.1 ⟨comment, rfl⟩

/-- **Gaps are skipped.** -/
theorem Gap.skip_append {behind gap : List Char} (isGap : Gap behind gap) :
    skip .blanks line (gap ++ behind) = skip .blanks (linesAfter line gap) behind := by
  induction isGap generalizing line with
  | nothing => rfl
  | blank blank _ ih => rw [List.cons_append, skip_blank blank, ih, linesAfter_cons]
  | @line comment gap oneLine _ ih =>
      calc skip .blanks line ('/' :: '/' :: (comment ++ '\n' :: gap) ++ behind)
        _ = skip .lineComment line (comment ++ '\n' :: (gap ++ behind)) := by simp [skip]
        _ = skip .blanks (line + 1) (gap ++ behind) := by rw [skip_lineComment oneLine]; rfl
        _ = _ := by simp [ih, linesAfter_of_notMem oneLine, lineAfter]
  | @lastLine comment oneLine atEnd =>
      subst atEnd
      calc skip .blanks line ('/' :: '/' :: comment ++ [])
        _ = skip .lineComment line (comment ++ []) := by simp [skip]
        _ = .ok ⟨[], line⟩ := by rw [skip_lineComment oneLine]; rfl
        _ = _ := by simp [linesAfter_of_notMem oneLine, lineAfter, skip]
  | @block comment gap noMark _ ih =>
      calc skip .blanks line ('/' :: '*' :: (comment ++ '*' :: '/' :: gap) ++ behind)
        _ = skip (.blockComment line) line (comment ++ '*' :: '/' :: (gap ++ behind)) := by simp [skip]
        _ = skip .blanks (linesAfter line comment) (gap ++ behind) := skip_blockComment noMark ..
        _ = _ := by simp [ih, lineAfter]

/-! ### What is skipped is a gap -/

/-- A comment to the end of its line may begin with one more character. -/
theorem Gap.lineComment_cons {behind text : List Char} {c : Char} (other : c ≠ '\n')
    (isGap : Gap behind ('/' :: '/' :: text)) : Gap behind ('/' :: '/' :: c :: text) := by
  cases isGap with
  | blank blank => exact absurd blank (by decide)
  | @line comment gap oneLine isGap =>
      rw [← List.cons_append]
      exact .line (List.not_mem_cons_of_ne_of_not_mem (Ne.symm other) oneLine) isGap
  | lastLine oneLine atEnd =>
      exact .lastLine (List.not_mem_cons_of_ne_of_not_mem (Ne.symm other) oneLine) atEnd

/-- A comment through a closing mark may begin with one more character, unless that makes another mark. -/
theorem Gap.blockComment_cons {behind text : List Char} {c : Char}
    (noMark : c = '*' → text.head? ≠ some '/') (isGap : Gap behind ('/' :: '*' :: text)) :
    Gap behind ('/' :: '*' :: c :: text) := by
  cases isGap with
  | blank blank => exact absurd blank (by decide)
  | @block comment gap unmarked isGap =>
      rw [← List.cons_append]
      refine .block ?_ isGap
      rw [List.infix_cons_iff, not_or]
      refine ⟨?_, unmarked⟩
      rintro ⟨rest, same⟩
      obtain ⟨rfl, rfl⟩ := List.cons.inj same
      exact noMark rfl rfl

/-- What has been skipped in front of the text behind it, together with what has opened it. -/
def Skipping.Skips (behind : List Char) : Skipping → List Char → Prop
  | .blanks, skipped => Gap behind skipped
  | .lineComment, skipped => Gap behind ('/' :: '/' :: skipped)
  | .blockComment _, skipped => Gap behind ('/' :: '*' :: skipped)

/-- **What is skipped** is a gap, and what is left stands. -/
theorem exists_skipped {mode : Skipping} {cs : List Char} {position : Position}
    (skipped : skip mode line cs = .ok position) :
    Stands position.rest ∧ ∃ gap, cs = gap ++ position.rest ∧ position.line = linesAfter line gap ∧
      mode.Skips position.rest gap := by
  fun_induction skip mode line cs with
  | case1 line rest ih =>
      obtain ⟨stands, gap, rfl, lines, skips⟩ := ih skipped
      exact ⟨stands, '/' :: '/' :: gap, rfl, by simp [lines, lineAfter], skips⟩
  | case2 line rest ih =>
      obtain ⟨stands, gap, rfl, lines, skips⟩ := ih skipped
      exact ⟨stands, '/' :: '*' :: gap, rfl, by simp [lines, lineAfter], skips⟩
  | case3 line c rest _ _ blank ih =>
      obtain ⟨stands, gap, rfl, lines, skips⟩ := ih skipped
      exact ⟨stands, c :: gap, rfl, by rw [lines, linesAfter_cons], .blank blank skips⟩
  -- Where nothing is skipped, what is left begins neither with a blank nor with a comment.
  | case4 line c rest noLine noBlock visible =>
      obtain rfl := Except.ok.inj skipped
      refine ⟨?_, [], rfl, rfl, .nothing⟩
      rintro _ _ ⟨⟩
      refine ⟨Bool.eq_false_iff.mpr visible, ?_⟩
      rintro rfl
      constructor
      · intro first
        obtain ⟨rest, rfl⟩ := List.head?_eq_some_iff.mp first
        exact noLine rest rfl rfl
      · intro first
        obtain ⟨rest, rfl⟩ := List.head?_eq_some_iff.mp first
        exact noBlock rest rfl rfl
  | case5 line =>
      obtain rfl := Except.ok.inj skipped
      exact ⟨stands_nil, [], rfl, rfl, .nothing⟩
  | case6 line c rest ih =>
      obtain ⟨stands, gap, rfl, lines, skips⟩ := ih skipped
      refine ⟨stands, c :: gap, rfl, by rw [lines, linesAfter_cons], ?_⟩
      split at skips
      · rename_i feed
        subst feed
        exact @Gap.line _ [] _ List.not_mem_nil skips
      · rename_i other
        exact .lineComment_cons other skips
  | case7 line =>
      obtain rfl := Except.ok.inj skipped
      exact ⟨stands_nil, [], rfl, rfl, .lastLine List.not_mem_nil rfl⟩
  | case8 start line rest ih =>
      obtain ⟨stands, gap, rfl, lines, skips⟩ := ih skipped
      -- The comment ends here: what is skipped behind its mark is a gap again.
      refine ⟨stands, '*' :: '/' :: gap, rfl, by simp [lines, lineAfter], ?_⟩
      exact @Gap.block _ [] _ (by decide) skips
  | case9 start line c rest noMark ih =>
      obtain ⟨stands, gap, rfl, lines, skips⟩ := ih skipped
      refine ⟨stands, c :: gap, rfl, by rw [lines, linesAfter_cons], .blockComment_cons ?_ skips⟩
      rintro rfl first
      obtain ⟨rest, rfl⟩ := List.head?_eq_some_iff.mp first
      exact noMark _ rfl rfl
  | case10 => cases skipped

end Skip

/-! ## Lexemes -/

/-- **Lexemes** and the tokens that they stand for, in front of the text behind them.  A stroke does not open a
comment; integers and words do not go on behind their end. -/
inductive Lexeme (behind : List Char) : List Char → Token → Prop
  | symbol {c : Char} : c ∈ symbols → (c = '/' → behind.head? ≠ some '/' ∧ behind.head? ≠ some '*') →
      Lexeme behind [c] (.symbol c)
  | integer {digits : List Char} : digits ≠ [] → (∀ c ∈ digits, c.isDigit = true) →
      (∀ c ∈ behind.head?, c.isDigit = false) → decimalValue digits ≤ largestConstant →
      Lexeme behind digits (.integer (decimalValue digits))
  | keyword {word : Keyword} : (∀ c ∈ behind.head?, isWordPart c = false) →
      Lexeme behind word.text.toList (.keyword word)
  | identifier {name : String} : IsName name → (∀ c ∈ behind.head?, isWordPart c = false) →
      Lexeme behind name.toList (.identifier name)
  | text {content : String} : '"' ∉ content.toList → '\n' ∉ content.toList →
      Lexeme behind ('"' :: (content.toList ++ ['"'])) (.text content)

/-! ### First characters -/

/-- A text stands if its first character is neither blank nor a stroke. -/
theorem stands_cons {c : Char} (visible : isBlank c = false) (noStroke : c ≠ '/') (rest : List Char) :
    Stands (c :: rest) := by
  rintro _ _ ⟨⟩
  exact ⟨visible, fun stroke => absurd stroke noStroke⟩

section First

variable {line : Nat} {c : Char} (rest : List Char)

/-- A symbol is read as it is… -/
theorem next_symbol (member : c ∈ symbols) : next line c rest = (.ok (.symbol c), ⟨rest, line⟩) := by
  have noQuote : c ≠ '"' := by
    rintro rfl
    exact absurd member (by decide)
  rw [next, if_neg noQuote, if_pos (List.contains_iff_mem.mpr member)]

/-- …a digit with those behind it… -/
theorem next_digit (digit : c.isDigit = true) : next line c rest =
    (readInteger (c :: rest.takeWhile Char.isDigit), ⟨rest.dropWhile Char.isDigit, line⟩) := by
  have noQuote : c ≠ '"' := by
    rintro rfl
    exact absurd digit (by decide)
  have noDigits : ∀ symbol ∈ symbols, (!symbol.isDigit) = true := List.all_eq_true.mp (by decide)
  have noSymbol : ¬symbols.contains c = true := fun contained =>
    absurd (noDigits c (List.contains_iff_mem.mp contained)) (by simp [digit])
  rw [next, if_neg noQuote, if_neg noSymbol, if_pos digit]

/-- …and the first character of a word with the word. -/
theorem next_word (start : isWordStart c = true) : next line c rest =
    (.ok (classifyWord (String.ofList (c :: rest.takeWhile isWordPart))), ⟨rest.dropWhile isWordPart, line⟩) := by
  have noQuote : c ≠ '"' := by
    rintro rfl
    exact absurd start (by decide)
  have noStarts : ∀ symbol ∈ symbols, (!isWordStart symbol) = true := List.all_eq_true.mp (by decide)
  have noSymbol : ¬symbols.contains c = true := fun contained =>
    absurd (noStarts c (List.contains_iff_mem.mp contained)) (by simp [start])
  have noDigit : ¬c.isDigit = true := by
    intro digit
    have digits : 48 ≤ c.toNat ∧ c.toNat ≤ 57 := Char.isDigit_iff_toNat.mp digit
    have letters := toNat_of_isWordStart start
    omega
  rw [next, if_neg noQuote, if_neg noSymbol, if_neg noDigit, if_pos start]

end First

/-! ### Lexemes are read -/

section Read

variable {line : Nat} {behind lexeme : List Char} {token : Token}

/-- A run of characters of a class ends in front of the first other one. -/
theorem span_append_of_stop {p : Char → Bool} {run : List Char} (all : ∀ c ∈ run, p c = true)
    (stop : ∀ c ∈ behind.head?, p c = false) :
    (run ++ behind).takeWhile p = run ∧ (run ++ behind).dropWhile p = behind := by
  rw [List.takeWhile_append_of_pos all, List.dropWhile_append_of_pos all]
  cases behind with
  | nil => simp
  | cons c rest => simp [stop c rfl]

/-- The spelling of a word as keyword or name. -/
theorem read_word {word : String} {token : Token} (classified : classifyWord word = token) {c : Char}
    {parts : List Char} (spelled : word.toList = c :: parts) (start : isWordStart c = true)
    (all : ∀ d ∈ parts, isWordPart d = true) (stop : ∀ d ∈ behind.head?, isWordPart d = false) :
    next line c (parts ++ behind) = (.ok token, ⟨behind, line⟩) ∧ Stands (c :: (parts ++ behind)) := by
  obtain ⟨run, left⟩ := span_append_of_stop all stop
  rw [next_word _ start, run, left, ← spelled, String.ofList_toList, classified]
  have letters := toNat_of_isWordStart start
  refine ⟨rfl, stands_cons (isBlank_of_visible (by omega) (by omega)) ?_ _⟩
  rintro rfl
  exact absurd start (by decide)

/-- A character of a string is neither a quote nor a line feed. -/
theorem isStringPart_iff {c : Char} : isStringPart c = true ↔ c ≠ '"' ∧ c ≠ '\n' := by
  simp [isStringPart]

/-- Keywords are words. -/
theorem keyword_isWord (word : Keyword) : ∃ c parts, word.text.toList = c :: parts ∧ isWordStart c = true ∧
    ∀ d ∈ parts, isWordPart d = true := by
  cases word <;> exact ⟨_, _, rfl, by decide, List.all_eq_true.mp (by decide)⟩

/-- **Lexemes are read** as the tokens that they stand for, and stand in front of any blank or comment. -/
theorem Lexeme.next_eq (isLexeme : Lexeme behind lexeme token) : ∃ c rest, lexeme ++ behind = c :: rest ∧
    next line c rest = (.ok token, ⟨behind, line⟩) ∧ Stands (c :: rest) := by
  cases isLexeme with
  | @symbol c member noComment =>
      refine ⟨c, behind, rfl, next_symbol behind member, ?_⟩
      have visible : ∀ symbol ∈ symbols, (!isBlank symbol) = true := List.all_eq_true.mp (by decide)
      rintro _ _ ⟨⟩
      exact ⟨(Bool.not_eq_true' _).mp (visible c member), noComment⟩
  | integer nonempty all stop small =>
      cases lexeme with
      | nil => exact absurd rfl nonempty
      | cons c digits =>
          obtain ⟨digit, all⟩ := List.forall_mem_cons.mp all
          obtain ⟨run, left⟩ := span_append_of_stop all stop
          refine ⟨c, digits ++ behind, rfl, ?_, stands_cons (isBlank_of_visible ?_ ?_) ?_ _⟩
          · rw [next_digit _ digit, run, left, readInteger, boundedValue?_eq, if_pos small]
          all_goals have within : 48 ≤ c.toNat ∧ c.toNat ≤ 57 := Char.isDigit_iff_toNat.mp digit
          · omega
          · omega
          · rintro rfl
            exact absurd digit (by decide)
  | @keyword word stop =>
      obtain ⟨c, parts, spelled, start, all⟩ := keyword_isWord word
      have classified : classifyWord word.text = .keyword word := by
        rw [classifyWord, Keyword.ofText?_text]
      exact ⟨c, parts ++ behind, by rw [spelled]; rfl, read_word classified spelled start all stop⟩
  | @identifier name isName stop =>
      obtain ⟨c, parts, spelled, start⟩ := isName.first
      -- A word is looked up among the keywords first, and the name of a variable is none of them.
      have classified : classifyWord name = .identifier name := by
        rw [classifyWord]
        split
        · rename_i word found
          exact absurd (Keyword.text_of_ofText? found).symm (isName.unreserved word)
        · rfl
      have all : ∀ d ∈ parts, isWordPart d = true := fun d member =>
        isName.parts d (spelled ▸ List.mem_cons_of_mem c member)
      exact ⟨c, parts ++ behind, by rw [spelled]; rfl, read_word classified spelled start all stop⟩
  | @text content noQuote oneLine =>
      have parts : ∀ c ∈ content.toList, isStringPart c = true := fun c member =>
        isStringPart_iff.mpr ⟨fun same => noQuote (same ▸ member), fun same => oneLine (same ▸ member)⟩
      obtain ⟨run, left⟩ := @span_append_of_stop ('"' :: behind) isStringPart _ parts (by rintro _ ⟨⟩; rfl)
      refine ⟨'"', content.toList ++ '"' :: behind, by simp, ?_, stands_cons (by decide) (by decide) _⟩
      show readString line (content.toList ++ '"' :: behind) = _
      rw [readString, run, left, String.ofList_toList]
      rfl

/-- Lexemes stay on their line. -/
theorem Lexeme.oneLine (isLexeme : Lexeme behind lexeme token) : '\n' ∉ lexeme := by
  cases isLexeme with
  | symbol member =>
      rintro (_ | ⟨_, ⟨⟩⟩)
      exact absurd member (by decide)
  | integer _ all => exact fun member => absurd (all _ member) (by decide)
  | @keyword word =>
      cases word <;> decide
  | identifier isName => exact fun member => absurd (isName.parts _ member) (by decide)
  | text _ oneLine => simpa using oneLine

end Read

/-! ### What is read is a lexeme -/

section Written

variable {line : Nat} {token : Token}

/-- The run of a class of characters stops in front of another one. -/
theorem stop_dropWhile (p : Char → Bool) (cs : List Char) : ∀ c ∈ (cs.dropWhile p).head?, p c = false := by
  intro c first
  have stopped := List.head?_dropWhile_not p cs
  rwa [first] at stopped

/-- Digits that are read are an integer. -/
theorem lexeme_of_readInteger {digits behind : List Char} (nonempty : digits ≠ [])
    (all : ∀ c ∈ digits, c.isDigit = true) (stop : ∀ c ∈ behind.head?, c.isDigit = false)
    (read : readInteger digits = .ok token) : Lexeme behind digits token := by
  unfold readInteger at read
  rw [boundedValue?_eq] at read
  by_cases small : decimalValue digits ≤ largestConstant
  · rw [if_pos small] at read
    obtain rfl := Except.ok.inj read
    exact .integer nonempty all stop small
  · rw [if_neg small] at read
    exact absurd read nofun

/-- A word is a keyword or a name. -/
theorem lexeme_of_word {behind parts : List Char} {c : Char} (start : isWordStart c = true)
    (all : ∀ d ∈ parts, isWordPart d = true) (stop : ∀ d ∈ behind.head?, isWordPart d = false) :
    Lexeme behind (c :: parts) (classifyWord (String.ofList (c :: parts))) := by
  rw [classifyWord]
  split
  · rename_i word found
    have spelled : word.text.toList = c :: parts := by
      rw [Keyword.text_of_ofText? found, String.toList_ofList]
    exact spelled ▸ .keyword stop
  · rename_i unreserved
    have isName : IsName (String.ofList (c :: parts)) := by
      refine ⟨⟨c, parts, String.toList_ofList, start⟩, ?_, ?_⟩
      · rw [String.toList_ofList]
        exact List.forall_mem_cons.mpr ⟨isWordPart_of_isWordStart start, all⟩
      · rintro word same
        rw [same, Keyword.ofText?_text] at unreserved
        exact absurd unreserved nofun
    have spelled : (String.ofList (c :: parts)).toList = c :: parts := String.toList_ofList
    exact spelled.subst (motive := (Lexeme behind · _)) (.identifier isName stop)

/-- What is read as a string is one between quotes. -/
theorem exists_lexeme_of_readString {cs : List Char} (read : (readString line cs).1 = .ok token) :
    (readString line cs).2.line = line ∧ ∃ lexeme, '"' :: cs = lexeme ++ (readString line cs).2.rest ∧
      Lexeme (readString line cs).2.rest lexeme token := by
  have parts : ∀ c ∈ cs.takeWhile isStringPart, isStringPart c = true := List.all_eq_true.mp List.all_takeWhile
  have noQuote : '"' ∉ (String.ofList (cs.takeWhile isStringPart)).toList := by
    rw [String.toList_ofList]
    exact fun member => absurd (parts _ member) (by decide)
  have oneLine : '\n' ∉ (String.ofList (cs.takeWhile isStringPart)).toList := by
    rw [String.toList_ofList]
    exact fun member => absurd (parts _ member) (by decide)
  have whole := (List.takeWhile_append_dropWhile (p := isStringPart) (l := cs)).symm
  have stop := stop_dropWhile isStringPart cs
  unfold readString at read ⊢
  dsimp only at read ⊢
  split at read
  · exact absurd read nofun
  · exact absurd read nofun
  · rename_i c behind noFeed left
    obtain rfl := Except.ok.inj read
    rw [left] at whole stop
    -- neither part of the string nor a line feed, the next character is the other quote
    have quote : c = '"' := by
      have noPart := stop c rfl
      by_contra noQuote
      exact absurd (isStringPart_iff.mpr ⟨noQuote, noFeed⟩) (by simp [noPart])
    subst quote
    refine ⟨rfl, _, ?_, .text noQuote oneLine⟩
    rw [String.toList_ofList, List.cons_append, List.append_assoc]
    exact congrArg _ whole

/-- **What is read** in a text that stands is a lexeme. -/
theorem exists_lexeme {c : Char} {rest : List Char} (stands : Stands (c :: rest))
    (read : (next line c rest).1 = .ok token) :
    (next line c rest).2.line = line ∧ ∃ lexeme, c :: rest = lexeme ++ (next line c rest).2.rest ∧
      Lexeme (next line c rest).2.rest lexeme token := by
  have whole (p : Char → Bool) : c :: rest = c :: rest.takeWhile p ++ rest.dropWhile p :=
    congrArg _ List.takeWhile_append_dropWhile.symm
  have run (p : Char → Bool) : ∀ d ∈ rest.takeWhile p, p d = true := List.all_eq_true.mp List.all_takeWhile
  by_cases quote : c = '"'
  · subst quote
    exact exists_lexeme_of_readString read
  by_cases member : c ∈ symbols
  · rw [next_symbol rest member] at read ⊢
    obtain rfl := Except.ok.inj read
    exact ⟨rfl, [c], rfl, .symbol member (stands c rest rfl).2⟩
  by_cases digit : c.isDigit = true
  · rw [next_digit rest digit] at read ⊢
    have digits : ∀ d ∈ c :: rest.takeWhile Char.isDigit, d.isDigit = true :=
      List.forall_mem_cons.mpr ⟨digit, run Char.isDigit⟩
    exact ⟨rfl, _, whole _,
      lexeme_of_readInteger (List.cons_ne_nil _ _) digits (stop_dropWhile _ rest) read⟩
  by_cases start : isWordStart c = true
  · rw [next_word rest start] at read ⊢
    obtain rfl := Except.ok.inj read
    exact ⟨rfl, _, whole _, lexeme_of_word start (run isWordPart) (stop_dropWhile _ rest)⟩
  · have noSymbol : ¬symbols.contains c = true := List.contains_iff_mem.not.mpr member
    rw [next, if_neg quote, if_neg noSymbol, if_neg digit, if_neg start] at read
    exact absurd read nofun

end Written

/-! ## Texts -/

/-- **A text falls into gaps and lexemes**, with a gap at its end, where it stands behind a front.  A token has the
number of the line on which the first character of its lexeme stands: one more than there are line feeds in front of
it. -/
inductive Splits : List Char → List Char → List Located → Prop
  | last {front gap : List Char} : Gap [] gap → Splits front gap []
  | lexeme {front gap lexeme behind : List Char} {token : Token} {tokens : List Located} :
      Gap (lexeme ++ behind) gap → Lexeme behind lexeme token → Splits (front ++ gap ++ lexeme) behind tokens →
      Splits front (gap ++ lexeme ++ behind) (⟨token, 1 + (front ++ gap).count '\n'⟩ :: tokens)

/-- The tokens in front of a text that stands. -/
theorem items_of_skip {position : Position} {c : Char} {rest : List Char} {line : Nat}
    (skipped : skip .blanks position.line position.rest = .ok ⟨c :: rest, line⟩) :
    items position = locate line (next line c rest).1 :: items (next line c rest).2 := by
  rw [items]
  split
  · rename_i failed
    cases skipped.symm.trans failed
  · rename_i ended
    cases skipped.symm.trans ended
  · rename_i same
    obtain ⟨⟨rfl, rfl⟩, rfl⟩ : (c = _ ∧ rest = _) ∧ line = _ := by simpa using skipped.symm.trans same
    rfl

/-- **Text that falls into gaps and lexemes** is read as their tokens… -/
theorem Splits.items_eq {front cs : List Char} {tokens : List Located} (splits : Splits front cs tokens) :
    items ⟨cs, linesAfter 1 front⟩ = tokens.map .ok := by
  induction splits with
  | @last front gap isGap =>
      have skipped : skip .blanks (linesAfter 1 front) gap = .ok ⟨[], linesAfter 1 (front ++ gap)⟩ := by
        rw [← List.append_nil gap, isGap.skip_append, linesAfter_append, linesAfter_append]
        rfl
      rw [items]
      split
      · rename_i failed
        cases skipped.symm.trans failed
      · rfl
      · rename_i same
        exact absurd (skipped.symm.trans same) (by simp)
  | @lexeme front gap lexeme behind token tokens isGap isLexeme _ ih =>
      obtain ⟨c, rest, spelled, read, stands⟩ := @Lexeme.next_eq (linesAfter 1 (front ++ gap)) _ _ _ isLexeme
      have skipped : skip .blanks (linesAfter 1 front) (gap ++ lexeme ++ behind) =
          .ok ⟨c :: rest, linesAfter 1 (front ++ gap)⟩ := by
        rw [List.append_assoc, isGap.skip_append, spelled, stands.skip_eq, linesAfter_append]
      rw [items_of_skip skipped, read]
      rw [linesAfter_append, linesAfter_of_notMem isLexeme.oneLine] at ih
      exact congrArg _ ih

/-- …and there is no other text that is read without faults. -/
theorem splits_of_items {position : Position} {tokens : List Located} (read : items position = tokens.map .ok)
    {front : List Char} (lines : position.line = linesAfter 1 front) : Splits front position.rest tokens := by
  fun_induction items position generalizing front tokens with
  | case1 position start failed =>
      cases tokens with
      | nil => exact absurd read (List.cons_ne_nil _ _)
      | cons located tokens => cases (List.cons.inj read).1
  | case2 position line skipped =>
      obtain ⟨-, gap, whole, -, isGap⟩ := exists_skipped skipped
      obtain rfl := List.map_eq_nil_iff.mp read.symm
      rw [whole]
      exact .last (by rwa [List.append_nil])
  | case3 position c rest line skipped reading =>
      rename_i ih
      obtain ⟨stands, gap, whole, behindGap, isGap⟩ := exists_skipped skipped
      cases tokens with
      | nil => exact absurd read (List.cons_ne_nil _ _)
      | cons located tokens =>
          obtain ⟨here, others⟩ := List.cons.inj read
          cases result : (next line c rest).1 with
          | error cause =>
              rw [result] at here
              cases here
          | ok token =>
              obtain ⟨sameLine, lexeme, spelled, isLexeme⟩ := exists_lexeme stands result
              rw [result] at here
              obtain rfl := Except.ok.inj here
              -- Lines are counted from the beginning of the text: over what is in front, the gap and the lexeme.
              have start : line = linesAfter 1 (front ++ gap) := by
                rw [linesAfter_append, ← lines]
                exact behindGap
              have ended : (next line c rest).2.line = linesAfter 1 (front ++ gap ++ lexeme) := by
                rw [linesAfter_append, linesAfter_of_notMem isLexeme.oneLine, sameLine, start]
              rw [whole, start]
              dsimp only at isGap ⊢
              rw [spelled] at isGap ⊢
              rw [← List.append_assoc]
              exact .lexeme isGap isLexeme (ih others ended)

end JackToolchain.Lexer

namespace JackToolchain

open Lexer

/-- A list of results that are all right. -/
theorem mapM_id_eq_ok_iff {α ε : Type} {results : List (Except ε α)} {values : List α} :
    results.mapM id = .ok values ↔ results = values.map .ok := by
  induction results generalizing values with
  | nil => cases values <;> simp [pure, Except.pure]
  | cons result results ih =>
      rw [List.mapM_cons]
      constructor
      · intro ok
        obtain ⟨value, here, ok⟩ := both_ok ok
        obtain ⟨others, behind, ok⟩ := both_ok ok
        obtain rfl := Except.ok.inj ok
        exact congrArg₂ _ here (ih.mp behind)
      · intro same
        cases values with
        | nil => exact absurd same (List.cons_ne_nil _ _)
        | cons value values =>
            obtain ⟨rfl, behind⟩ := List.cons.inj same
            rw [ih.mpr behind]
            rfl

/-- **The lexical grammar.**  A text has tokens exactly if it falls into gaps and lexemes, and then it has those of
the lexemes, in order and on their lines. -/
theorem tokenize_eq_ok_iff {source : String} {tokens : List Located} :
    tokenize source = .ok tokens ↔ Splits [] source.toList tokens :=
  mapM_id_eq_ok_iff.trans ⟨fun read => splits_of_items read rfl, Splits.items_eq⟩

end JackToolchain

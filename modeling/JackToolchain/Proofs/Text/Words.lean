import JackToolchain.Proofs.Text.Lines
import JackToolchain.Proofs.Text.Numbered
import Mathlib.Data.List.Infix

/-!
# Words

Words with spaces between them are read back.

## Main Definitions

* `IsWord` — a text without blanks and without the sign of a comment.
* `spaced` — words with spaces between them.
* `IsPlain` — a text without blanks and slashes.

## Main Statements

* `beforeComment_eq_self_iff` — a text is all in front of its comment exactly if it has no comment.
* `words_spaced` — words are told apart by the spaces between them.
* `codeLine?_spaced` — a line of words is code as a whole.
* `isWord_of_mem_words` — whatever is read as a word of code is one.
* `IsPlain.isWord`, `isWord_numeral` — plain texts are words, and so are numerals.
-/

namespace JackToolchain.Text

/-! ## Comments -/

/-- The sign of a comment. -/
def commentSign : List Char := ['/', '/']

/-- What is in front of a comment begins like the text itself. -/
theorem head?_of_beforeComment {cs behind : List Char} {c : Char}
    (spelled : beforeComment cs = c :: behind) : cs.head? = some c := by
  unfold beforeComment at spelled
  split at spelled
  · exact absurd spelled (List.cons_ne_nil _ _).symm
  · exact absurd spelled (List.cons_ne_nil _ _).symm
  · rw [(List.cons.inj spelled).1]
    rfl

/-- In front of a comment there is none. -/
theorem not_comment_beforeComment (cs : List Char) : ¬ commentSign <:+: beforeComment cs := by
  fun_induction beforeComment cs with
  | case1 => exact fun inside => absurd inside.length_le (by decide)
  | case2 rest => exact fun inside => absurd inside.length_le (by decide)
  | case3 c rest other ih =>
      intro inside
      rcases List.infix_cons_iff.mp inside with begins | behind
      · -- the whole sign would have been seen where it begins
        obtain ⟨same, tail, next⟩ := List.cons_prefix_cons.mp begins
        obtain ⟨unread, unreadRest⟩ := List.head?_eq_some_iff.mp (head?_of_beforeComment next.symm)
        exact other unread same.symm unreadRest
      · exact ih behind

theorem beforeComment_eq_self_iff {cs : List Char} :
    beforeComment cs = cs ↔ ¬ commentSign <:+: cs := by
  constructor
  · intro same
    rw [← same]
    exact not_comment_beforeComment cs
  · intro none
    fun_induction beforeComment cs with
    | case1 => rfl
    | case2 rest => exact absurd ⟨[], rest, rfl⟩ none
    | case3 c rest other ih =>
        rw [ih fun inside => none (List.infix_cons inside)]

/-- No comment begins across a character that is not in its sign. -/
theorem not_comment_append {front behind : List Char} {between : Char} (other : between ≠ '/')
    (one : ¬ commentSign <:+: front) (two : ¬ commentSign <:+: behind) :
    ¬ commentSign <:+: front ++ between :: behind := by
  induction front with
  | nil =>
      intro inside
      rcases List.infix_cons_iff.mp inside with begins | inBehind
      · exact other (List.cons_prefix_cons.mp begins).1.symm
      · exact two inBehind
  | cons c rest ih =>
      intro inside
      rcases List.infix_cons_iff.mp inside with begins | inRest
      · obtain ⟨rfl, next⟩ := List.cons_prefix_cons.mp begins
        -- the second half of the sign is the other character, or it stands in front of it
        cases rest with
        | nil => exact other (List.cons_prefix_cons.mp next).1.symm
        | cons d others =>
            obtain ⟨rfl, -⟩ := List.cons_prefix_cons.mp next
            exact one ⟨[], others, rfl⟩
      · exact ih (fun inside => one (List.infix_cons inside)) inRest

/-! ## Words -/

/-- **Words**: neither empty nor blank in any place, and without the sign of a comment. -/
structure IsWord (word : String) : Prop where
  nonempty : word.toList ≠ []
  solid : ∀ c ∈ word.toList, isBlank c = false
  uncommented : ¬ commentSign <:+: word.toList

theorem isWord_iff {word : String} : IsWord word ↔
    word.toList ≠ [] ∧ word.toList.all (!isBlank ·) = true ∧ ¬ commentSign <:+: word.toList := by
  have solid : word.toList.all (!isBlank ·) = true ↔ ∀ c ∈ word.toList, isBlank c = false := by
    simp only [List.all_eq_true, Bool.not_eq_true']
  rw [solid]
  exact ⟨fun ⟨nonempty, solid, uncommented⟩ => ⟨nonempty, solid, uncommented⟩,
    fun ⟨nonempty, solid, uncommented⟩ => ⟨nonempty, solid, uncommented⟩⟩

instance (word : String) : Decidable (IsWord word) := decidable_of_iff' _ isWord_iff

/-- **Stretches of words**: neither blank in any place, nor with the sign of a comment. -/
structure IsSolid (cs : List Char) : Prop where
  visible : ∀ c ∈ cs, isBlank c = false
  uncommented : ¬ commentSign <:+: cs

namespace IsSolid

theorem nil : IsSolid [] where
  visible := List.forall_mem_nil _
  uncommented inside := absurd (List.eq_nil_of_infix_nil inside) (List.cons_ne_nil _ _)

/-- Two stretches with a character between them that is neither blank nor in the sign of a comment. -/
theorem append {front behind : List Char} {between : Char} (one : IsSolid front) (two : IsSolid behind)
    (visible : isBlank between = false) (other : between ≠ '/') : IsSolid (front ++ between :: behind) where
  visible := List.forall_mem_append.mpr
    ⟨one.visible, List.forall_mem_cons.mpr ⟨visible, two.visible⟩⟩
  uncommented := not_comment_append other one.uncommented two.uncommented

theorem isWord {text : String} (solid : IsSolid text.toList) (nonempty : text.toList ≠ []) :
    IsWord text :=
  ⟨nonempty, solid.visible, solid.uncommented⟩

end IsSolid

theorem IsWord.isSolid {word : String} (isWord : IsWord word) : IsSolid word.toList :=
  ⟨isWord.solid, isWord.uncommented⟩

/-- Words with spaces between them. -/
def spaced : List String → List Char
  | [] => []
  | [word] => word.toList
  | word :: rest => word.toList ++ ' ' :: spaced rest

theorem spaced_cons_cons (word next : String) (rest : List String) :
    spaced (word :: next :: rest) = word.toList ++ ' ' :: spaced (next :: rest) := rfl

section Spaced

variable {texts : List String}

/-- **Words are told apart** by the spaces between them. -/
theorem words_spaced (areWords : ∀ word ∈ texts, IsWord word) :
    words (spaced texts) = texts.map String.toList := by
  -- without a word there is still one piece, an empty one, so the induction begins at one word
  have cut : ∀ texts : List String, texts ≠ [] → (∀ word ∈ texts, IsWord word) →
      pieces isBlank (spaced texts) = texts.map String.toList := by
    intro texts nonempty areWords
    induction texts with
    | nil => exact absurd rfl nonempty
    | cons word rest ih =>
        obtain ⟨here, others⟩ := List.forall_mem_cons.mp areWords
        cases rest with
        | nil => exact pieces_of_solid here.solid
        | cons next rest =>
            rw [spaced_cons_cons, pieces_append_separator _ here.solid rfl,
              ih (List.cons_ne_nil _ _) others]
            rfl
  cases texts with
  | nil => rfl
  | cons word rest =>
      unfold words
      rw [cut _ (List.cons_ne_nil _ _) areWords, List.filter_eq_self]
      intro cs member
      obtain ⟨text, inTexts, rfl⟩ := List.mem_map.mp member
      simpa using (areWords text inTexts).nonempty

/-- Only spaces stand between words. -/
theorem mem_spaced {c : Char} (member : c ∈ spaced texts) : c = ' ' ∨ ∃ word ∈ texts, c ∈ word.toList := by
  induction texts with
  | nil => exact absurd member List.not_mem_nil
  | cons word rest ih =>
      cases rest with
      | nil => exact .inr ⟨word, List.mem_cons_self, member⟩
      | cons next rest =>
          rw [spaced_cons_cons, List.mem_append, List.mem_cons] at member
          rcases member with inWord | rfl | behind
          · exact .inr ⟨word, List.mem_cons_self, inWord⟩
          · exact .inl rfl
          · refine (ih behind).imp_right ?_
            rintro ⟨other, inRest, inside⟩
            exact ⟨other, List.mem_cons_of_mem _ inRest, inside⟩

/-- Words have no comment among them. -/
theorem beforeComment_spaced (areWords : ∀ word ∈ texts, IsWord word) :
    beforeComment (spaced texts) = spaced texts := by
  rw [beforeComment_eq_self_iff]
  induction texts with
  | nil => decide
  | cons word rest ih =>
      obtain ⟨here, others⟩ := List.forall_mem_cons.mp areWords
      cases rest with
      | nil => exact here.uncommented
      | cons next rest => exact not_comment_append (by decide) here.uncommented (ih others)

/-- A text with solid ends is not trimmed. -/
theorem trim_eq_self {cs : List Char} (first : ∀ c ∈ cs.head?, isBlank c = false)
    (last : ∀ c ∈ cs.getLast?, isBlank c = false) : trim cs = cs := by
  have kept {cs : List Char} (first : ∀ c ∈ cs.head?, isBlank c = false) :
      cs.dropWhile isBlank = cs := by
    cases cs with
    | nil => rfl
    | cons c rest => exact List.dropWhile_cons_of_neg (by simp [first c rfl])
  unfold trim
  rw [kept first, kept, List.reverse_reverse]
  rwa [List.head?_reverse]

theorem spaced_ne_nil (areWords : ∀ word ∈ texts, IsWord word) (nonempty : texts ≠ []) :
    spaced texts ≠ [] := by
  intro empty
  have read := words_spaced areWords
  rw [empty] at read
  exact nonempty (List.map_eq_nil_iff.mp read.symm)

theorem head?_spaced (areWords : ∀ word ∈ texts, IsWord word) :
    ∀ c ∈ (spaced texts).head?, isBlank c = false := by
  cases texts with
  | nil => exact fun c member => absurd member (by simp [spaced])
  | cons word rest =>
      have here := areWords word List.mem_cons_self
      have first : (spaced (word :: rest)).head? = word.toList.head? := by
        cases rest with
        | nil => rfl
        | cons next rest => rw [spaced_cons_cons, List.head?_append_of_ne_nil _ here.nonempty]
      rw [first]
      exact fun c member => here.solid c (List.mem_of_head? member)

theorem getLast?_spaced (areWords : ∀ word ∈ texts, IsWord word) :
    ∀ c ∈ (spaced texts).getLast?, isBlank c = false := by
  induction texts with
  | nil => exact fun c member => absurd member (by simp [spaced])
  | cons word rest ih =>
      obtain ⟨here, others⟩ := List.forall_mem_cons.mp areWords
      cases rest with
      | nil => exact fun c member => here.solid c (List.mem_of_getLast? member)
      | cons next rest =>
          intro c member
          rw [spaced_cons_cons, List.getLast?_append_of_ne_nil _ (List.cons_ne_nil _ _),
            List.getLast?_cons_of_ne_nil (spaced_ne_nil others (List.cons_ne_nil _ _))] at member
          exact ih others c member

variable {text : String}

/-- Words with spaces between them stand on one line… -/
theorem isLine_spaced (areWords : ∀ word ∈ texts, IsWord word) (spelled : text.toList = spaced texts) :
    IsLine text where
  oneLine := by
    rw [spelled]
    intro member
    rcases mem_spaced member with same | ⟨word, inTexts, inside⟩
    · exact absurd same (by decide)
    · exact absurd ((areWords word inTexts).solid _ inside) (by decide)
  noReturn := by
    rw [spelled]
    intro last
    exact absurd (getLast?_spaced areWords _ last) (by decide)

/-- …which is **code as a whole**. -/
theorem codeLine?_spaced (areWords : ∀ word ∈ texts, IsWord word) (nonempty : texts ≠ [])
    (spelled : text.toList = spaced texts) (number : Nat) :
    codeLine? number text = some (number, spaced texts) := by
  unfold codeLine?
  rw [spelled, beforeComment_spaced areWords,
    trim_eq_self (head?_spaced areWords) (getLast?_spaced areWords)]
  split
  · rename_i empty
    exact absurd empty (spaced_ne_nil areWords nonempty)
  · rfl

end Spaced

namespace IsWord

variable {word : String}

/-- Nothing is taken off at its ends… -/
theorem trim_eq (isWord : IsWord word) : trim word.toList = word.toList :=
  trim_eq_self (fun c first => isWord.solid c (List.mem_of_head? first))
    fun c last => isWord.solid c (List.mem_of_getLast? last)

/-- …and it is not ended before. -/
theorem endedLines_eq (isWord : IsWord word) : endedLines word.toList = [word.toList] := by
  have oneLine : '\n' ∉ word.toList := fun member => absurd (isWord.solid _ member) (by decide)
  rw [endedLines_of_oneLine oneLine, dropReturn, if_neg]
  exact fun last => absurd (isWord.solid _ (List.mem_of_getLast? last)) (by decide)

end IsWord

/-! ## Plain texts -/

/-- A text without blanks and without the sign of a comment, even half of it. -/
def IsPlain (text : List Char) : Prop := ∀ c ∈ text, isBlank c = false ∧ c ≠ '/'

theorem IsPlain.isWord {text : String} (plain : IsPlain text.toList) (nonempty : text.toList ≠ []) :
    IsWord text where
  nonempty := nonempty
  solid c member := (plain c member).1
  uncommented sign := absurd rfl (plain '/' (sign.subset List.mem_cons_self)).2

/-- No visible character is blank. -/
theorem isBlank_of_visible {c : Char} (above : 32 < c.toNat) (below : c.toNat < 127) :
    isBlank c = false := by
  have visible : ∀ code ∈ blankCodePoints, code ≤ 32 ∨ 127 ≤ code := by decide
  rw [Bool.eq_false_iff]
  intro blank
  have bounds := visible _ (List.contains_iff_mem.mp blank)
  omega

theorem isPlain_of_visible {cs : List Char}
    (visible : ∀ c ∈ cs, 32 < c.toNat ∧ c.toNat < 127 ∧ c.toNat ≠ 47) : IsPlain cs := by
  intro c member
  obtain ⟨above, below, other⟩ := visible c member
  refine ⟨isBlank_of_visible above below, ?_⟩
  rintro rfl
  exact other rfl

theorem isPlain_numeral (number : Nat) : IsPlain (toString number).toList := by
  refine isPlain_of_visible fun c member => ?_
  have within : 48 ≤ c.toNat ∧ c.toNat ≤ 57 := Char.isDigit_iff_toNat.mp (isDigit_of_mem_numeral member)
  omega

/-- **Numerals** are words. -/
theorem isWord_numeral (number : Nat) : IsWord (toString number) := by
  refine (isPlain_numeral number).isWord ?_
  rw [Nat.toString_eq_ofList_toDigits, String.toList_ofList]
  exact Nat.toDigits_ne_nil

/-! ## Words that are read -/

/-- Pieces are stretches of the text without separators; the first stands at its beginning. -/
theorem infix_of_mem_pieces (isSeparator : Char → Bool) (cs : List Char) :
    ∃ first others, pieces isSeparator cs = first :: others ∧ first <+: cs ∧
      (∀ piece ∈ others, piece <:+: cs) ∧
      ∀ piece ∈ pieces isSeparator cs, ∀ c ∈ piece, isSeparator c = false := by
  -- the first piece is kept apart from the others, since a character in front is joined to it
  induction cs with
  | nil => exact ⟨[], [], rfl, List.prefix_rfl, List.forall_mem_nil _, by simp⟩
  | cons c rest ih =>
      obtain ⟨first, others, cut, begins, inside, solid⟩ := ih
      have behind : ∀ piece ∈ others, piece <:+: c :: rest :=
        fun piece member => List.infix_cons (inside piece member)
      cases separates : isSeparator c with
      | true =>
          rw [pieces_cons_separator rest separates]
          refine ⟨[], _, rfl, List.nil_prefix, ?_, List.forall_mem_cons.mpr ⟨by simp, solid⟩⟩
          rw [cut]
          exact List.forall_mem_cons.mpr ⟨List.infix_cons begins.isInfix, behind⟩
      | false =>
          rw [pieces_cons_of_not separates cut]
          rw [cut] at solid
          obtain ⟨here, elsewhere⟩ := List.forall_mem_cons.mp solid
          refine ⟨_, _, rfl, List.cons_prefix_cons.mpr ⟨rfl, begins⟩, behind,
            List.forall_mem_cons.mpr ⟨List.forall_mem_cons.mpr ⟨separates, here⟩, elsewhere⟩⟩

/-- **Whatever is read** as a word of a text without a comment is one. -/
theorem isWord_of_mem_words {cs word : List Char} (uncommented : ¬ commentSign <:+: cs)
    (member : word ∈ words cs) : IsWord (String.ofList word) := by
  obtain ⟨inPieces, nonempty⟩ := List.mem_filter.mp member
  obtain ⟨first, others, cut, begins, inside, solid⟩ := infix_of_mem_pieces isBlank cs
  have part : word <:+: cs := by
    rw [cut] at inPieces
    rcases List.mem_cons.mp inPieces with rfl | behind
    · exact begins.isInfix
    · exact inside word behind
  have spelled : (String.ofList word).toList = word := String.toList_ofList
  refine ⟨?_, ?_, ?_⟩
  · rw [spelled]
    simpa using nonempty
  · rw [spelled]
    exact solid word inPieces
  · rw [spelled]
    exact fun sign => uncommented (sign.trans part)

theorem isInfix_trim (cs : List Char) : trim cs <:+: cs := by
  have front := List.dropWhile_suffix isBlank (l := cs)
  have back := List.dropWhile_suffix isBlank (l := (cs.dropWhile isBlank).reverse)
  rw [← List.reverse_prefix, List.reverse_reverse] at back
  exact back.isInfix.trans front.isInfix

/-- There are no comments in the code on the lines of a text. -/
theorem not_comment_of_mem_codeLines {source : String} {number : Nat} {code : List Char}
    (member : (number, code) ∈ codeLines source) : ¬ commentSign <:+: code := by
  obtain ⟨⟨line, position⟩, -, found⟩ := List.mem_filterMap.mp member
  have trimmed : code = trim (beforeComment line) := by
    dsimp only at found
    split at found
    · exact absurd found.symm (Option.some_ne_none _)
    · exact (Prod.mk.inj (Option.some.inj found)).2.symm
  rw [trimmed]
  exact fun sign => not_comment_beforeComment line (sign.trans (isInfix_trim _))

end JackToolchain.Text

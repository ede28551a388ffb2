import JackToolchain.Proofs.Hack.Linking
import JackToolchain.Proofs.Hack.Passes

/-!
# Loading

The words of an assembled text stand in memory as the lines from which it was written.

## Main Definitions

* `Assembled.value` — the value of a name behind both passes.

## Main Statements

* `words_of_assemble` — the words of written lines are those of the lines, at the values of names.
* `loaded_of_assemble` — so a memory that holds them from its beginning holds the lines.
* `addressable_of_assemble` — everything that the lines load fits an address instruction, if the words do.
* `Lowering.Sound.loaded` — each block of sound assembly stands behind the words of the blocks in front of it.

## Design Notes

What the machine does on a block is told of a memory and of values in which the block is loaded.  Both come from
the text of the whole assembly: it has to be read back as its lines before the passes can be followed on them.
-/

namespace JackToolchain.Hack

open Text

/-! ## Values -/

/-- **The value of a name** behind both passes; a name that has none stands in no line. -/
def Assembled.value (assembled : Assembled) (name : String) : Nat := assembled.symbols[name]?.getD 0

variable {assembled : Assembled} {lines : List Line}

/-! ## Words -/

/-- The lines among generated lines that take a word are as many as the words. -/
theorem length_instructions_source (lines : List Line) :
    ((lines.filterMap Line.source?).filter (·.isInstruction)).length = size lines := by
  induction lines with
  | nil => rfl
  | cons line rest ih =>
      cases line with
      | comment | label => rw [size_cons, Line.size, Nat.zero_add]; exact ih
      | address | compute => rw [size_cons, Line.size, Nat.add_comm]; exact congrArg Nat.succ ih

/-- The word of an address line that is legible is the number that it loads. -/
theorem eq_of_hasWord_address {target : Target} (legible : (Line.address target).IsLegible) {word : Word}
    (has : (SourceLine.address target.text.toList).HasWord assembled.symbols word) :
    word = BitVec.ofNat 16 (target.value assembled.value) := by
  rw [SourceLine.HasWord] at has
  cases target with
  | number value =>
      have digit : (toString value).toList.head?.any Char.isDigit = true := head?_numeral value
      have written := (natural?_of_digit digit (natural?_toString legible)).2
      rw [Target.text, if_pos digit, ← written] at has
      exact BitVec.eq_of_toNat_eq (by rw [Target.value, ← has.2, BitVec.ofNat_toNat, BitVec.setWidth_eq])
  | symbol name =>
      rw [Target.text, if_neg (Bool.eq_false_iff.mp (not_isDigit_of_isSymbol legible)),
        String.ofList_toList] at has
      rw [Target.value, Assembled.value, has, Option.getD_some, BitVec.ofNat_toNat, BitVec.setWidth_eq]

/-- Words of legible lines, one for each that takes one, are the words of the lines. -/
theorem eq_words_of_hasWord (legible : ∀ line ∈ lines, line.IsLegible) {ws : List Word}
    (has : List.Forall₂ (SourceLine.HasWord assembled.symbols)
      ((lines.filterMap Line.source?).filter (·.isInstruction)) ws) :
    ws = words assembled.value lines := by
  induction lines generalizing ws with
  | nil =>
      cases has
      rfl
  | cons line rest ih =>
      obtain ⟨here, others⟩ := List.forall_mem_cons.mp legible
      cases line with
      | comment | label => exact ih others has
      | address target =>
          obtain ⟨word, behind, first, hasOthers, rfl⟩ := List.forall₂_cons_left_iff.mp has
          rw [words, ih others hasOthers, eq_of_hasWord_address here first]
      | compute instruction =>
          obtain ⟨word, behind, ⟨read, isRead, rfl⟩, hasOthers, rfl⟩ := List.forall₂_cons_left_iff.mp has
          obtain rfl := Except.ok.inj (instruction.read_text.symm.trans isRead)
          rw [words, ih others hasOthers]

/-! ## Labels -/

/-- A label among written lines is declared behind the words in front of it. -/
theorem declaredBehind_of_label {numbered : List (Nat × SourceLine)} {front rest : List Line} {name : String}
    (seen : numbered.map (·.2) = (front ++ Line.label name :: rest).filterMap Line.source?) :
    DeclaredBehind numbered name (size front) := by
  rw [List.filterMap_append, List.filterMap_cons, Line.source?] at seen
  obtain ⟨before, behind, rfl, seenFront, seen⟩ := List.map_eq_append_iff.mp seen
  obtain ⟨⟨number, -⟩, others, rfl, rfl, -⟩ := List.map_eq_cons_iff.mp seen
  refine ⟨before, number, name.toList, others, rfl, String.ofList_toList, ?_⟩
  rw [instructionsOf, seenFront, length_instructions_source]

/-- Labels whose values count the words in front of them are placed. -/
theorem placed_of_labels {values : String → Nat} {start : Nat}
    (counts : ∀ front name rest, lines = front ++ Line.label name :: rest → values name = start + size front) :
    Placed values start lines := by
  induction lines generalizing start with
  | nil => trivial
  | cons line rest ih =>
      -- the words in front of a later label are those in front of it here and those of this line
      have later : ∀ front name behind, rest = front ++ Line.label name :: behind →
          values name = start + line.size + size front := by
        rintro front name behind rfl
        rw [counts (line :: front) name behind rfl, size_cons, Nat.add_assoc]
      cases line with
      | comment content => exact ih later
      | label name => exact ⟨counts [] name rest rfl, ih later⟩
      | address | compute => exact ih later

/-! ## Loading -/

section Assembled

variable (legible : ∀ line ∈ lines, line.IsLegible)
  (ok : assemble (unlines (lines.map Line.text)) = .ok assembled)

/-- The predefined symbols have their values. -/
theorem standard_of_assemble {source : String} (ok : assemble source = .ok assembled) :
    Standard assembled.value := by
  rintro ⟨name, value⟩ known
  rw [Assembled.value, (symbols_eq_some_iff ok).mpr (.inl known), Option.getD_some]

include legible ok

/-- **The words** of assembled lines are the words of the lines, at the values of names. -/
theorem words_of_assemble : assembled.words = words assembled.value lines := by
  refine eq_words_of_hasWord legible ?_
  rw [← sourceLines_text fun line member => (legible line member).isReadable]
  exact hasWord_of_assemble ok

/-- The labels among assembled lines are placed. -/
theorem placed_of_assemble : Placed assembled.value 0 lines := by
  refine placed_of_labels ?_
  rintro front name rest rfl
  have seen := sourceLines_text fun line member => (legible line member).isReadable
  have declared := declaredBehind_of_label seen
  rw [Assembled.value, (symbols_eq_some_iff ok).mpr (.inr (.inl declared)), Option.getD_some, Nat.zero_add]

/-- **Loading.**  A memory that holds the words of assembled lines from its beginning holds the lines. -/
theorem loaded_of_assemble : Loaded (romOf assembled.words) assembled.value 0 lines := by
  have loaded := loaded_romOf [] [] (placed_of_assemble legible ok)
  rwa [List.append_nil, ← words_of_assemble legible ok] at loaded

/-- **Bounds.**  If the words are so few that each has a constant for its position, then everything that the lines
load is a constant. -/
theorem addressable_of_assemble (short : assembled.words.length ≤ largestConstant) :
    Addressable assembled.value lines := by
  intro line member
  have fits (name : String) : assembled.value name ≤ largestConstant := by
    rw [Assembled.value]
    cases bound : assembled.symbols[name]? with
    | none => exact Nat.zero_le _
    | some value =>
        rcases (symbols_eq_some_iff ok).mp bound with known | declared | ⟨i, found, rfl⟩
        · exact predefined_fits (predefined_eq_some_iff.mpr known)
        · obtain ⟨front, number, label, rest, parts, -, rfl⟩ := declared
          have words := (hasWord_of_assemble ok).length_eq
          rw [instructionLines, parts, instructionsOf_append, List.length_append] at words
          exact (Nat.le_add_right ..).trans (words.le.trans short)
        · have within := (List.getElem?_eq_some_iff.mp found).1
          have below := variables_below_screen ok
          have high : screen ≤ largestConstant := by decide
          show firstVariable + i ≤ largestConstant
          omega
  cases line with
  | comment | label | compute => trivial
  | address target =>
      cases target with
      | number value => exact legible _ member
      | symbol name => exact fits name

end Assembled

/-! ## Sound assembly -/

/-- **Sound assembly is loaded.**  Each block of it stands in memory behind the words of what is in front of it. -/
theorem Lowering.Sound.loaded {lowering : Lowering} {declared : List String} (sound : lowering.Sound declared)
    (ok : assemble lowering.text = .ok assembled) {front block back : List Line}
    (parts : lowering.lines.toList = front ++ block ++ back) :
    Loaded (romOf assembled.words) assembled.value (size front) block ∧
      (assembled.words.length ≤ largestConstant → Addressable assembled.value block) := by
  have all := loaded_of_assemble sound.legible ok
  rw [parts, loaded_append, loaded_append, Nat.zero_add] at all
  refine ⟨all.1.2, fun short => ?_⟩
  have addressable := addressable_of_assemble sound.legible ok short
  rw [parts, addressable_append, addressable_append] at addressable
  exact addressable.1.2

end JackToolchain.Hack

import JackToolchain.Proofs.Hack.Legibility
import JackToolchain.Proofs.Hack.Machine
import Mathlib.Data.Option.NAry

/-!
# Mnemonics

What the text of a compute instruction says, told from its characters alone, and that its word makes the machine do it.

## Main Definitions

* `denotation?` — the value of a computation, put together from its operands and its sign.
* `jumpCondition?` — the results on which a jump mnemonic jumps.
* `Mnemonics` — the three parts of a text; `Mnemonics.Spell` and `Mnemonics.AreKnown` say which texts have which parts.
* `Mnemonics.IsDoneBy` — a word makes the machine do what the parts say.

## Main Statements

* `denotation?_of_isSpelled` — both spellings of a computation denote its value.
* `Destination.has_of_ofLetters?` — a destination has the letters that it is read from, in whatever order they stand.
* `Compute.read_isOk_iff` — the texts that are read are those that have known parts.
* `compute_words_do_as_spelled` — the words of these texts do what the parts say.

## Design Notes

`Computation.value` is a table with a line for each computation.  The denotation here has no such table: it knows the
three registers, the two constants and four signs, and does not distinguish the 28 computations.  So it gives a value to
some texts that no instruction has, such as `1+1`.
-/

namespace JackToolchain.Hack

open Text

/-! ## What mnemonics denote -/

/-- The operands: the registers, the cell that is addressed, and two constants. -/
def operand? (d a m : Word) : Char → Option Word
  | '0' => some 0
  | '1' => some 1
  | 'D' => some d
  | 'A' => some a
  | 'M' => some m
  | _ => none

/-- **The value of a computation**, told from its characters: an operand, an operand behind a sign, or two operands with
a sign between them. -/
def denotation? (d a m : Word) : List Char → Option Word
  | [x] => operand? d a m x
  | ['-', x] => (operand? d a m x).map (- ·)
  | ['!', x] => (operand? d a m x).map (~~~ ·)
  | [x, '+', y] => Option.map₂ (· + ·) (operand? d a m x) (operand? d a m y)
  | [x, '-', y] => Option.map₂ (· - ·) (operand? d a m x) (operand? d a m y)
  | [x, '&', y] => Option.map₂ (· &&& ·) (operand? d a m x) (operand? d a m y)
  | [x, '|', y] => Option.map₂ (· ||| ·) (operand? d a m x) (operand? d a m y)
  | _ => none

/-- **The results on which a jump mnemonic jumps.** -/
def jumpCondition? : String → Option (Int → Prop)
  | "" => some fun _ => False
  | "JGT" => some fun result => 0 < result
  | "JEQ" => some fun result => result = 0
  | "JGE" => some fun result => 0 ≤ result
  | "JLT" => some fun result => result < 0
  | "JNE" => some fun result => result ≠ 0
  | "JLE" => some fun result => result ≤ 0
  | "JMP" => some fun _ => True
  | _ => none

section Denotations

variable (d a m : Word) {computation : Computation}

/-- The spelling in which a computation is written denotes its value… -/
theorem denotation?_text (computation : Computation) :
    denotation? d a m computation.text.toList =
      some (computation.value d (computation.source.input ⟨a, d, fun _ => m⟩)) := by
  cases computation with
  | zero | one | minusOne | x | notX | negX | xPlusOne | xMinusOne => rfl
  | y s | notY s | negY s | yPlusOne s | yMinusOne s | xPlusY s | xMinusY s | yMinusX s | xAndY s
  | xOrY s => cases s <;> rfl

/-- …and so does the other one, which has the operands the other way round. -/
theorem denotation?_otherText {other : String} (spelled : computation.otherText? = some other) :
    denotation? d a m other.toList =
      some (computation.value d (computation.source.input ⟨a, d, fun _ => m⟩)) := by
  cases computation with
  | xPlusOne =>
      obtain rfl := Option.some.inj spelled
      exact congrArg some (BitVec.add_comm ..)
  | yPlusOne s | xPlusY s =>
      obtain rfl := Option.some.inj spelled
      cases s <;> exact congrArg some (BitVec.add_comm ..)
  | xAndY s =>
      obtain rfl := Option.some.inj spelled
      cases s <;> exact congrArg some (BitVec.and_comm ..)
  | xOrY s =>
      obtain rfl := Option.some.inj spelled
      cases s <;> exact congrArg some (BitVec.or_comm ..)
  | _ => exact absurd spelled nofun

/-- **Every spelling** of a computation denotes its value. -/
theorem denotation?_of_isSpelled {word : String} (spelled : computation.isSpelled word = true) :
    denotation? d a m word.toList =
      some (computation.value d (computation.source.input ⟨a, d, fun _ => m⟩)) := by
  rcases Bool.or_eq_true_iff.mp spelled with same | other
  · rw [← eq_of_beq same]
    exact denotation?_text d a m computation
  · exact denotation?_otherText d a m (eq_of_beq other)

end Denotations

/-- A jump is taken on the results of its mnemonic. -/
theorem jumpCondition?_text (jump : Jump) : ∃ condition, jumpCondition? jump.text = some condition ∧
    ∀ result : Word, jump.taken result = true ↔ condition result.toInt := by
  cases jump <;> exact ⟨_, rfl, fun result => by simp [Jump.taken]⟩

/-! ## Destinations -/

namespace Destination

/-- Whether a destination has a letter. -/
def has (destination : Destination) : Char → Bool
  | 'A' => destination.a
  | 'D' => destination.d
  | 'M' => destination.m
  | _ => false

variable {destination next : Destination} {letter : Char} {letters : List Char}

/-- A letter that is added is known and new. -/
theorem addLetter?_eq_some (added : destination.addLetter? letter = some next) :
    letter ∈ ['A', 'D', 'M'] ∧ destination.has letter = false ∧
      ∀ other, next.has other = true ↔ other = letter ∨ destination.has other = true := by
  have isNew {taken : Bool} {made : Destination} (added : (if taken then none else some made) = some next) :
      taken = false ∧ next = made := by
    cases taken with
    | true => exact absurd added nofun
    | false => exact ⟨rfl, (Option.some.inj added).symm⟩
  unfold addLetter? at added
  split at added
  case h_4 => exact absurd added nofun
  all_goals
    obtain ⟨absent, rfl⟩ := isNew added
    refine ⟨by decide, absent, fun other => ?_⟩
    unfold has
    split <;> simp_all

theorem exists_addLetter? (known : letter ∈ ['A', 'D', 'M']) (absent : destination.has letter = false) :
    ∃ next, destination.addLetter? letter = some next := by
  simp only [List.mem_cons, List.not_mem_nil, or_false] at known
  rcases known with rfl | rfl | rfl
  · exact ⟨_, if_neg (Bool.eq_false_iff.mp absent)⟩
  · exact ⟨_, if_neg (Bool.eq_false_iff.mp absent)⟩
  · exact ⟨_, if_neg (Bool.eq_false_iff.mp absent)⟩

/-- Letters that are added one after the other are known and new, and each stands once… -/
theorem foldlM_addLetter?_eq_some (added : letters.foldlM addLetter? destination = some next) :
    letters.Nodup ∧ (∀ letter ∈ letters, letter ∈ ['A', 'D', 'M'] ∧ destination.has letter = false) ∧
      ∀ other, next.has other = true ↔ other ∈ letters ∨ destination.has other = true := by
  induction letters generalizing destination with
  | nil =>
      obtain rfl := Option.some.inj added
      simp
  | cons letter rest ih =>
      rw [List.foldlM_cons] at added
      obtain ⟨between, first, added⟩ := Option.bind_eq_some_iff.mp added
      obtain ⟨known, absent, hasBetween⟩ := addLetter?_eq_some first
      obtain ⟨distinct, others, hasNext⟩ := ih added
      -- what the destination has behind the first letter, the rest does not add
      have fresh : ∀ other ∈ rest, other ≠ letter ∧ destination.has other = false := by
        intro other member
        have free := (others other member).2
        rw [← Bool.not_eq_true, hasBetween, not_or] at free
        exact ⟨free.1, Bool.eq_false_iff.mpr free.2⟩
      refine ⟨List.nodup_cons.mpr ⟨fun repeated => (fresh letter repeated).1 rfl, distinct⟩,
        List.forall_mem_cons.mpr ⟨⟨known, absent⟩, fun other member =>
          ⟨(others other member).1, (fresh other member).2⟩⟩, fun other => ?_⟩
      rw [hasNext, hasBetween, List.mem_cons, or_left_comm, or_assoc]

/-- …and all such letters are added. -/
theorem exists_foldlM_addLetter? (distinct : letters.Nodup)
    (fresh : ∀ letter ∈ letters, letter ∈ ['A', 'D', 'M'] ∧ destination.has letter = false) :
    ∃ next, letters.foldlM addLetter? destination = some next := by
  induction letters generalizing destination with
  | nil => exact ⟨destination, rfl⟩
  | cons letter rest ih =>
      obtain ⟨⟨known, absent⟩, others⟩ := List.forall_mem_cons.mp fresh
      obtain ⟨isNew, distinct⟩ := List.nodup_cons.mp distinct
      obtain ⟨between, first⟩ := exists_addLetter? known absent
      obtain ⟨-, -, hasBetween⟩ := addLetter?_eq_some first
      have stillFresh : ∀ other ∈ rest, other ∈ ['A', 'D', 'M'] ∧ between.has other = false := by
        intro other member
        refine ⟨(others other member).1, ?_⟩
        rw [← Bool.not_eq_true, hasBetween, not_or]
        exact ⟨fun same => isNew (same ▸ member), Bool.eq_false_iff.mp (others other member).2⟩
      obtain ⟨next, added⟩ := ih distinct stillFresh
      refine ⟨next, ?_⟩
      rw [List.foldlM_cons, first]
      exact added

/-- **Destinations** are spelled by known letters, each at most once, in any order. -/
theorem ofLetters?_isSome_iff : (∃ destination, ofLetters? letters = some destination) ↔
    letters.Nodup ∧ letters ⊆ ['A', 'D', 'M'] := by
  constructor
  · rintro ⟨destination, read⟩
    obtain ⟨distinct, known, -⟩ := foldlM_addLetter?_eq_some read
    exact ⟨distinct, fun letter member => (known letter member).1⟩
  · rintro ⟨distinct, known⟩
    refine exists_foldlM_addLetter? distinct fun letter member => ⟨known member, ?_⟩
    unfold has
    split <;> rfl

/-- **The letters of a destination** are those that it is read from. -/
theorem has_of_ofLetters? (read : ofLetters? letters = some destination) (letter : Char) :
    destination.has letter = true ↔ letter ∈ letters := by
  obtain ⟨-, -, has⟩ := foldlM_addLetter?_eq_some read
  rw [has, or_iff_left]
  unfold Destination.has
  split <;> exact Bool.false_ne_true

end Destination

/-! ## The parts of a text -/

/-- **Ended by a separator**: the part with the separator behind it.  An empty part may do without. -/
def EndedBy (separator : Char) (part written : List Char) : Prop :=
  written = part ++ [separator] ∨ part = [] ∧ written = []

/-- **Begun by a separator**: the part with the separator in front of it.  An empty part may do without. -/
def BegunBy (separator : Char) (part written : List Char) : Prop :=
  written = separator :: part ∨ part = [] ∧ written = []

namespace Compute

section Splitting

variable {separator : Char} {cs part rest : List Char}

/-- What is not taken up to a separator begins with it. -/
theorem eq_of_dropWhile_ne {c : Char} (spelled : cs.dropWhile (· != separator) = c :: rest) : c = separator := by
  have stops := List.head?_dropWhile_not (· != separator) cs
  rw [spelled] at stops
  simpa using stops

theorem exists_endedBy_splitFront (separator : Char) (cs : List Char) :
    ∃ front, EndedBy separator (splitFront separator cs).1 front ∧ cs = front ++ (splitFront separator cs).2 := by
  unfold splitFront
  split
  · exact ⟨[], .inr ⟨rfl, rfl⟩, rfl⟩
  · rename_i c behind spelled
    refine ⟨_, .inl rfl, ?_⟩
    obtain rfl := eq_of_dropWhile_ne spelled
    rw [List.append_assoc, List.singleton_append, ← spelled]
    exact List.takeWhile_append_dropWhile.symm

theorem exists_begunBy_splitBehind (separator : Char) (cs : List Char) :
    ∃ behind, BegunBy separator (splitBehind separator cs).2 behind ∧ cs = (splitBehind separator cs).1 ++ behind := by
  refine ⟨cs.dropWhile (· != separator), ?_, List.takeWhile_append_dropWhile.symm⟩
  unfold splitBehind BegunBy
  cases spelled : cs.dropWhile (· != separator) with
  | nil => exact .inr ⟨rfl, rfl⟩
  | cons c behind => exact .inl (congrArg (· :: behind) (eq_of_dropWhile_ne spelled))

theorem splitFront_of_endedBy {front : List Char} (ended : EndedBy separator part front)
    (absent : separator ∉ part) (absentToo : separator ∉ rest) :
    splitFront separator (front ++ rest) = (part, rest) := by
  rcases ended with rfl | ⟨rfl, rfl⟩
  · rw [List.append_assoc]
    exact splitFront_append absent rest
  · exact splitFront_of_not_mem absentToo

theorem splitBehind_of_begunBy {behind : List Char} (begun : BegunBy separator part behind)
    (absent : separator ∉ rest) : splitBehind separator (rest ++ behind) = (rest, part) := by
  rcases begun with rfl | ⟨rfl, rfl⟩
  · exact splitBehind_append absent part
  · rw [List.append_nil]
    exact splitBehind_of_not_mem absent

end Splitting

end Compute

/-- The three parts of the text of a compute instruction. -/
structure Mnemonics where
  destination : List Char
  computation : List Char
  jump : List Char

namespace Mnemonics

/-- **Spelling.**  The text is, but for its blanks, the destination with an equals sign behind it, the computation, and
the jump with a semicolon in front of it. -/
def Spell (parts : Mnemonics) (text : List Char) : Prop :=
  ∃ front behind, EndedBy '=' parts.destination front ∧ BegunBy ';' parts.jump behind ∧
    text.filter (!isBlank ·) = front ++ (parts.computation ++ behind)

/-- **Known parts.** -/
structure AreKnown (parts : Mnemonics) : Prop where
  /-- The letters of registers, each at most once and in any order. -/
  destination : parts.destination.Nodup ∧ parts.destination ⊆ ['A', 'D', 'M']
  /-- Either spelling of a computation. -/
  computation : ∃ computation : Computation, computation.isSpelled (String.ofList parts.computation) = true
  jump : ∃ jump : Jump, jump.text = String.ofList parts.jump

/-- The output of the arithmetic unit when a word is executed. -/
def output (word d a m : Word) : Word :=
  alu (word.extractLsb' 6 6) d (if word.getLsbD 12 then m else a)

/-- **Doing as the parts say.** -/
structure IsDoneBy (parts : Mnemonics) (word : Word) : Prop where
  /-- The unit puts out what the computation denotes, whatever the registers and the cell hold. -/
  output : ∀ d a m : Word, denotation? d a m parts.computation = some (output word d a m)
  toA : word.getLsbD 5 = true ↔ 'A' ∈ parts.destination
  toD : word.getLsbD 4 = true ↔ 'D' ∈ parts.destination
  toM : word.getLsbD 3 = true ↔ 'M' ∈ parts.destination
  /-- The jump is taken on those outputs that the mnemonic says. -/
  jump : ∃ condition, jumpCondition? (String.ofList parts.jump) = some condition ∧
    ∀ result : Word, jumps (word.extractLsb' 0 3) result = true ↔ condition result.toInt

end Mnemonics

/-! ## Reading -/

theorem Computation.isSpelled_of_ofText? {computation : Computation} {word : String}
    (found : ofText? word = some computation) : computation.isSpelled word = true := by
  unfold ofText? at found
  have spelled := List.find?_some found
  exact spelled

theorem Jump.text_of_ofText? {jump : Jump} {word : String} (found : ofText? word = some jump) :
    jump.text = word := by
  unfold ofText? at found
  have same := List.find?_some found
  exact eq_of_beq same

/-- The spellings of computations are made of digits, letters of registers, and signs. -/
theorem Computation.subset_of_isSpelled {computation : Computation} {word : String}
    (spelled : computation.isSpelled word = true) : word.toList ⊆ "01-!DAM+&|".toList := by
  rcases Bool.or_eq_true_iff.mp spelled with same | other
  · exact eq_of_beq same ▸ computation.text_subset
  · replace other := eq_of_beq other
    cases computation with
    | xPlusOne =>
        obtain rfl := Option.some.inj other
        decide
    | yPlusOne s | xPlusY s | xAndY s | xOrY s =>
        obtain rfl := Option.some.inj other
        cases s <;> decide
    | _ => exact absurd other nofun

namespace Compute

variable {text : List Char} {compute : Compute}

/-- The parts of a text between its separators. -/
def partsOf (text : List Char) : Mnemonics :=
  let (destination, rest) := splitFront '=' (text.filter (!isBlank ·))
  let (computation, jump) := splitBehind ';' rest
  ⟨destination, computation, jump⟩

/-- What is read is read from the three parts. -/
theorem read_eq_ok_iff : read text = .ok compute ↔
    Computation.ofText? (String.ofList (partsOf text).computation) = some compute.computation ∧
      Destination.ofLetters? (partsOf text).destination = some compute.destination ∧
      Jump.ofText? (String.ofList (partsOf text).jump) = some compute.jump := by
  unfold read partsOf
  dsimp only
  constructor
  · intro accepted
    split at accepted
    · exact absurd accepted nofun
    · split at accepted
      · exact absurd accepted nofun
      · split at accepted
        · exact absurd accepted nofun
        · rename_i computation _ _ destination _ _ jump
          obtain rfl := Except.ok.inj accepted
          exact ⟨computation, destination, jump⟩
  · rintro ⟨computation, destination, jump⟩
    rw [computation, destination, jump]

theorem spell_partsOf (text : List Char) : (partsOf text).Spell text := by
  obtain ⟨front, ended, cut⟩ := exists_endedBy_splitFront '=' (text.filter (!isBlank ·))
  obtain ⟨behind, begun, cutAgain⟩ := exists_begunBy_splitBehind ';' (splitFront '=' (text.filter (!isBlank ·))).2
  exact ⟨front, behind, ended, begun, cut.trans (congrArg (front ++ ·) cutAgain)⟩

/-- Known parts are found again: none of them holds a separator. -/
theorem partsOf_eq {parts : Mnemonics} (spell : parts.Spell text) (known : parts.AreKnown) : partsOf text = parts := by
  obtain ⟨front, behind, ended, begun, visible⟩ := spell
  obtain ⟨computation, spelled⟩ := known.computation
  obtain ⟨jump, named⟩ := known.jump
  have inComputation := Computation.subset_of_isSpelled spelled
  rw [String.toList_ofList] at inComputation
  have inJump : parts.jump ⊆ "JGTEQLNMP".toList := by
    rw [← String.toList_ofList (l := parts.jump), ← named]
    exact jump.text_subset
  have inBehind : behind ⊆ ';' :: "JGTEQLNMP".toList := by
    rcases begun with rfl | ⟨-, rfl⟩
    · exact List.cons_subset_cons _ inJump
    · exact List.nil_subset _
  have noEquals : '=' ∉ parts.computation ++ behind := by
    rw [List.mem_append, not_or]
    exact ⟨fun member => absurd (inComputation member) (by decide),
      fun member => absurd (inBehind member) (by decide)⟩
  unfold partsOf
  rw [visible, splitFront_of_endedBy ended (fun member => absurd (known.destination.2 member) (by decide)) noEquals]
  dsimp only
  rw [splitBehind_of_begunBy begun fun member => absurd (inComputation member) (by decide)]

/-- The parts of a text that is read are known. -/
theorem areKnown_of_read (accepted : read text = .ok compute) : (partsOf text).AreKnown := by
  obtain ⟨computation, destination, jump⟩ := read_eq_ok_iff.mp accepted
  exact ⟨Destination.ofLetters?_isSome_iff.mp ⟨_, destination⟩, ⟨_, Computation.isSpelled_of_ofText? computation⟩,
    ⟨_, Jump.text_of_ofText? jump⟩⟩

/-- Every word that spells a computation is found among the spellings. -/
theorem exists_of_isSpelled {computation : Computation} {word : String}
    (spelled : computation.isSpelled word = true) : ∃ found, Computation.ofText? word = some found := by
  have inTable : computation ∈ Computation.all := by
    cases computation with
    | zero | one | minusOne | x | notX | negX | xPlusOne | xMinusOne => decide
    | y s | notY s | negY s | yPlusOne s | yMinusOne s | xPlusY s | xMinusY s | yMinusX s | xAndY s
    | xOrY s => cases s <;> decide
  exact Option.isSome_iff_exists.mp (List.find?_isSome.mpr ⟨computation, inTable, spelled⟩)

/-- **The texts that are read** are those that have known parts. -/
theorem read_isOk_iff :
    (∃ compute, read text = .ok compute) ↔ ∃ parts : Mnemonics, parts.Spell text ∧ parts.AreKnown := by
  constructor
  · rintro ⟨compute, accepted⟩
    exact ⟨_, spell_partsOf text, areKnown_of_read accepted⟩
  · rintro ⟨parts, spell, known⟩
    obtain rfl := partsOf_eq spell known
    obtain ⟨destination, letters⟩ := Destination.ofLetters?_isSome_iff.mpr known.destination
    obtain ⟨_, spelled⟩ := known.computation
    obtain ⟨computation, found⟩ := exists_of_isSpelled spelled
    obtain ⟨jump, named⟩ := known.jump
    exact ⟨⟨destination, computation, jump⟩, read_eq_ok_iff.mpr ⟨found, letters, named ▸ jump.ofText?_text⟩⟩

/-- The output of the unit on the word of an instruction is the value of its computation. -/
theorem output_encode (compute : Compute) (d a m : Word) : Mnemonics.output compute.encode d a m =
    compute.computation.value d (compute.computation.source.input ⟨a, d, fun _ => m⟩) := by
  have selected := encode_source compute ⟨a, d, fun _ => m⟩
  dsimp only at selected
  rw [Mnemonics.output, encode_control, selected, alu_control]

/-- The word of an instruction that is read does what the parts of the text say. -/
theorem isDoneBy_encode (accepted : read text = .ok compute) : (partsOf text).IsDoneBy compute.encode := by
  obtain ⟨computation, destination, jump⟩ := read_eq_ok_iff.mp accepted
  obtain ⟨toA, toD, toM⟩ := encode_destination compute
  have hasLetter := Destination.has_of_ofLetters? destination
  refine ⟨?_, toA ▸ hasLetter 'A', toD ▸ hasLetter 'D', toM ▸ hasLetter 'M', ?_⟩
  · intro d a m
    have denoted := denotation?_of_isSpelled d a m (Computation.isSpelled_of_ofText? computation)
    rw [String.toList_ofList] at denoted
    rw [denoted, output_encode]
  · obtain ⟨condition, known, taken⟩ := jumpCondition?_text compute.jump
    rw [Jump.text_of_ofText? jump] at known
    refine ⟨condition, known, fun result => ?_⟩
    rw [encode_jump, jumps_bits, taken]

end Compute

/-- **Compute instructions do as they are spelled.**  A text has a word exactly when it has known parts, and the word
makes the arithmetic unit put out what the computation denotes, sends it to the registers that the destination names,
and jumps on the results that the jump says. -/
theorem compute_words_do_as_spelled (text : List Char) :
    ((∃ word, (Compute.read text).map Compute.encode = .ok word) ↔
      ∃ parts : Mnemonics, parts.Spell text ∧ parts.AreKnown) ∧
    ∀ word, (Compute.read text).map Compute.encode = .ok word →
      ∃ parts : Mnemonics, parts.Spell text ∧ parts.AreKnown ∧ parts.IsDoneBy word := by
  have of_word {word : Word} (encoded : (Compute.read text).map Compute.encode = .ok word) :
      ∃ compute, Compute.read text = .ok compute ∧ compute.encode = word := by
    cases accepted : Compute.read text with
    | error cause => exact absurd (accepted ▸ encoded) nofun
    | ok compute => exact ⟨compute, rfl, Except.ok.inj (accepted ▸ encoded)⟩
  constructor
  · rw [← Compute.read_isOk_iff]
    constructor
    · rintro ⟨word, encoded⟩
      obtain ⟨compute, accepted, -⟩ := of_word encoded
      exact ⟨compute, accepted⟩
    · rintro ⟨compute, accepted⟩
      exact ⟨compute.encode, congrArg (Except.map Compute.encode) accepted⟩
  · intro word encoded
    obtain ⟨compute, accepted, rfl⟩ := of_word encoded
    exact ⟨_, Compute.spell_partsOf text, Compute.areKnown_of_read accepted, Compute.isDoneBy_encode accepted⟩

/-- Blanks anywhere, the letters of the destination against their order, and the other spelling of a sum. -/
theorem spaced_sum_does_as_spelled :
    (Compute.read " M D=1 + M ; JG T".toList).map Compute.encode = .ok 0b1111110111011001 ∧
      ∃ parts : Mnemonics, parts.Spell " M D=1 + M ; JG T".toList ∧ parts.AreKnown ∧
        parts.IsDoneBy 0b1111110111011001 := by
  have encoded : (Compute.read " M D=1 + M ; JG T".toList).map Compute.encode = .ok 0b1111110111011001 := by
    decide
  exact ⟨encoded, (compute_words_do_as_spelled _).2 _ encoded⟩

end JackToolchain.Hack

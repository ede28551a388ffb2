import JackToolchain.Proofs.Hack.SeenLines
import JackToolchain.Proofs.Hack.Variables

/-!
# What the two passes agree on

The first pass counts the words that the second one makes, and the second one looks up what the first one bound.
What the words and the symbols of an assembled text are.

## Main Definitions

* `SourceLine.HasWord` — the word of a line, given the values of all symbols.
* `DeclaredBehind` — a label is declared behind a number of instructions.
* `distinctVariables` — the names that are neither labels nor predefined, in the order of first appearance.
* `Encoding.Numbers` — the second pass has given out cells for names, one after the other.

## Main Statements

* `declaredBehind_of_layout`, `exists_declaredBehind` — the first pass binds a label to the number of instructions
  in front of it.
* `Encoding.Numbers.run` — the second pass gives out cells in the order of first appearance, and makes words of the
  values that names have in the end.
* `hasWord_of_assemble`, `symbols_eq_some_iff`, `passes_agree` — so words and symbols of an assembled text are told
  from its lines.
-/

namespace JackToolchain.Hack

open Text

/-! ## Words -/

/-- **The word of a line**, given the values of all symbols: the instruction that a compute line reads as, the
number that the digits of an address line write, or the value of the name in it. -/
def SourceLine.HasWord (symbols : Symbols) : SourceLine → Word → Prop
  | .label _, _ => False
  | .compute text, word => ∃ instruction, Compute.read text = .ok instruction ∧ word = instruction.encode
  | .address target, word =>
    if target.head?.any Char.isDigit then
      target.all Char.isDigit = true ∧ word.toNat = decimalValue target
    else symbols[String.ofList target]? = some word.toNat

/-- Symbols that are added do not matter to the words that there are. -/
theorem SourceLine.HasWord.mono {symbols more : Symbols} (extends_ : Extends symbols more) {line : SourceLine}
    {word : Word} (has : line.HasWord symbols word) : line.HasWord more word := by
  cases line with
  | label | compute => exact has
  | address target =>
      rw [HasWord] at has ⊢
      split at has
      · rename_i digit
        rwa [if_pos digit]
      · rename_i noDigit
        rw [if_neg noDigit]
        exact extends_ has

/-- What begins with a digit and is read as a number has only digits, and is the number that they write. -/
theorem natural?_of_digit {limit value : Nat} {cs : List Char} (digit : cs.head?.any Char.isDigit = true)
    (read : natural? limit cs = some value) : cs.all Char.isDigit = true ∧ value = decimalValue cs := by
  have unsigned : dropPlus cs = cs := by
    unfold dropPlus
    split
    · exact absurd digit Bool.false_ne_true
    · rfl
  unfold natural? at read
  rw [unsigned] at read
  dsimp only at read
  split at read
  · exact absurd read nofun
  · rename_i plain
    rw [Bool.or_eq_true, not_or, Bool.not_eq_true', Bool.not_eq_false] at plain
    rw [boundedValue?_eq] at read
    split at read
    · exact ⟨plain.2, (Option.some.inj read).symm⟩
    · exact absurd read nofun

/-! ## Labels -/

/-- **A label** is declared behind a number of instructions. -/
def DeclaredBehind (lines : List (Nat × SourceLine)) (name : String) (position : Nat) : Prop :=
  ∃ front number label rest, lines = front ++ (number, .label label) :: rest ∧
    String.ofList label = name ∧ (instructionsOf front).length = position

section Layout

variable {layout after : Layout} {lines : List (Nat × SourceLine)}

theorem instructionsOf_append (front rest : List (Nat × SourceLine)) :
    instructionsOf (front ++ rest) = instructionsOf front ++ instructionsOf rest := by
  rw [instructionsOf, List.map_append, List.filter_append]
  rfl

/-- The first pass counts the instructions. -/
theorem layout_next (ran : lines.foldlM Layout.step layout = .ok after) :
    after.next = layout.next + (instructionsOf lines).length := by
  induction lines generalizing layout with
  | nil =>
      obtain rfl := Except.ok.inj ran
      rfl
  | cons numbered rest ih =>
      obtain ⟨line, content⟩ := numbered
      obtain ⟨between, stepped, ran⟩ := foldlM_cons_eq_ok ran
      rw [ih ran]
      cases content with
      | label label =>
          obtain ⟨-, -, rfl⟩ := Layout.step_label stepped
          rfl
      | address | compute =>
          obtain ⟨-, rfl⟩ := Layout.step_instruction rfl stepped
          exact Nat.add_right_comm ..

/-- **The first pass binds** a label to the number of instructions in front of it, wherever it is declared. -/
theorem bound_of_declaredBehind (ran : lines.foldlM Layout.step layout = .ok after) {name : String}
    {position : Nat} (declared : DeclaredBehind lines name position) :
    after.symbols[name]? = some (layout.next + position) := by
  obtain ⟨front, number, label, rest, rfl, rfl, rfl⟩ := declared
  rw [List.foldlM_append] at ran
  obtain ⟨reached, ranFront, ran⟩ := both_ok ran
  obtain ⟨between, stepped, ranRest⟩ := foldlM_cons_eq_ok ran
  obtain ⟨-, -, rfl⟩ := Layout.step_label stepped
  rw [layout_symbols ranRest, getElem?_insert_symbol, if_pos rfl, layout_next ranFront]
  rfl

/-- A line in front of a declaration moves it on if the line takes a word. -/
theorem DeclaredBehind.cons {name : String} {position : Nat} (declared : DeclaredBehind lines name position)
    (numbered : Nat × SourceLine) :
    DeclaredBehind (numbered :: lines) name ((instructionsOf [numbered]).length + position) := by
  obtain ⟨front, number, label, rest, rfl, named, rfl⟩ := declared
  refine ⟨numbered :: front, number, label, rest, rfl, named, ?_⟩
  rw [← List.singleton_append, instructionsOf_append, List.length_append]

/-- A label that has a position is declared there. -/
theorem exists_declaredBehind {name : String} {first position : Nat}
    (found : labelPosition? name first lines = some position) :
    ∃ behind, position = first + behind ∧ DeclaredBehind lines name behind := by
  induction lines generalizing first with
  | nil => exact absurd found nofun
  | cons numbered rest ih =>
      obtain ⟨line, content⟩ := numbered
      cases content with
      | label label =>
          rw [labelPosition?] at found
          split at found
          · rename_i named
            obtain rfl := Option.some.inj found
            exact ⟨0, rfl, [], line, label, rest, rfl, named, rfl⟩
          · obtain ⟨behind, same, declared⟩ := ih found
            exact ⟨_, (Nat.zero_add behind).symm ▸ same, declared.cons (line, .label label)⟩
      | address | compute =>
          obtain ⟨behind, rfl, declared⟩ := ih found
          exact ⟨_, Nat.add_assoc .., declared.cons (line, _)⟩

end Layout

/-! ## Variables -/

/-- **The distinct variables** of lines, in the order of first appearance: the names that they use without declaring
them, but for those that every program knows. -/
def distinctVariables (lines : List SourceLine) : List String :=
  ((lines.filterMap (·.used?)).filter fun name =>
    !(declaredNames lines).contains name && !predefined.contains name).eraseDups

/-- The names that have no value in front of the second pass, in the order of first appearance. -/
def distinctUnknown (known : Symbols) (names : List String) : List String :=
  (names.filter fun name => (known[name]?).isNone).eraseDups

/-- Names that are met later stand behind those that were met before. -/
theorem distinctUnknown_append (known : Symbols) (names more : List String) :
    ∃ behind, distinctUnknown known (names ++ more) = distinctUnknown known names ++ behind := by
  unfold distinctUnknown
  rw [List.filter_append, List.eraseDups_append]
  exact ⟨_, rfl⟩

/-- A name that has not been met is one more… -/
theorem distinctUnknown_concat_of_new {known : Symbols} {names : List String} {name : String}
    (unknown : known[name]? = none) (new : name ∉ distinctUnknown known names) :
    distinctUnknown known (names ++ [name]) = distinctUnknown known names ++ [name] := by
  unfold distinctUnknown at new ⊢
  rw [List.mem_eraseDups] at new
  rw [List.filter_append, List.filter_singleton, unknown, List.eraseDups_append]
  exact congrArg _ (congrArg _ ((List.cons_removeAll ..).trans (if_pos (by simpa using new))))

/-- …and any other is not. -/
theorem distinctUnknown_concat_of_met {known : Symbols} {names : List String} {name : String}
    (met : known[name]? ≠ none ∨ name ∈ distinctUnknown known names) :
    distinctUnknown known (names ++ [name]) = distinctUnknown known names := by
  unfold distinctUnknown at met ⊢
  rw [List.mem_eraseDups] at met
  rw [List.filter_append, List.eraseDups_append]
  have nothing : ([name].filter fun name => (known[name]?).isNone).removeAll
      (names.filter fun name => (known[name]?).isNone) = [] := by
    refine List.filter_eq_nil_iff.mpr fun other member => ?_
    obtain ⟨single, unknown⟩ := List.mem_filter.mp member
    obtain rfl := List.mem_singleton.mp single
    have before := met.resolve_left (not_not.mpr (Option.isNone_iff_eq_none.mp unknown))
    simpa using before
  rw [nothing]
  exact List.append_nil _

/-- Where the items of a list with one more at its end stand. -/
theorem getElem?_concat_eq_some_iff {α : Type} {items : List α} {last item : α} {i : Nat} :
    (items ++ [last])[i]? = some item ↔ items[i]? = some item ∨ i = items.length ∧ last = item := by
  rw [List.getElem?_append, List.getElem?_singleton]
  grind

/-- **Cells in order.**  The cells from the first one on have been given out to names, one after the other, and what
was known before has its value still. -/
structure Encoding.Numbers (encoding : Encoding) (known : Symbols) (names : List String) : Prop where
  symbols : ∀ name value, encoding.symbols[name]? = some value ↔
    known[name]? = some value ∨ ∃ i, names[i]? = some name ∧ value = firstVariable + i
  next : encoding.nextVariable = firstVariable + names.length
  below : encoding.nextVariable ≤ screen

namespace Encoding.Numbers

variable {encoding after : Encoding} {known : Symbols} {names more used : List String}

/-- In front of the second pass no cell has been given out. -/
theorem initial (known : Symbols) : Numbers { symbols := known } known [] where
  symbols _ _ := (or_iff_left (by simp)).symm
  next := rfl
  below := show firstVariable ≤ screen by decide

/-- Words do not matter. -/
theorem push (numbers : encoding.Numbers known names) (word : Word) :
    (encoding.push word).Numbers known names :=
  ⟨numbers.symbols, numbers.next, numbers.below⟩

/-- Where more cells have been given out, symbols have been added. -/
theorem extends_ (numbers : encoding.Numbers known names) (later : after.Numbers known (names ++ more)) :
    Extends encoding.symbols after.symbols := by
  intro name value bound
  refine (later.symbols name value).mpr (((numbers.symbols name value).mp bound).imp_right ?_)
  rintro ⟨i, found, same⟩
  have within := (List.getElem?_eq_some_iff.mp found).1
  exact ⟨i, (List.getElem?_append_left within).trans found, same⟩

/-- A name without a value is unknown and has no cell. -/
theorem of_unbound (numbers : encoding.Numbers known names) {name : String}
    (unbound : encoding.symbols[name]? = none) : known[name]? = none ∧ name ∉ names := by
  have bound {value : Nat} := (numbers.symbols name value).mpr.mt (unbound ▸ nofun)
  refine ⟨Option.eq_none_iff_forall_ne_some.mpr fun value isKnown => bound (.inl isKnown), fun member => ?_⟩
  obtain ⟨i, found⟩ := List.mem_iff_getElem?.mp member
  exact bound (.inr ⟨i, found, rfl⟩)

/-- A name with a value is known or has a cell… -/
theorem met (numbers : encoding.Numbers known names) {name : String} {value : Nat}
    (bound : encoding.symbols[name]? = some value) : known[name]? ≠ none ∨ name ∈ names := by
  refine ((numbers.symbols name value).mp bound).imp (fun isKnown => ?_) fun ⟨i, found, _⟩ => ?_
  · exact Option.ne_none_iff_exists'.mpr ⟨value, isKnown⟩
  · exact List.mem_of_getElem? found

/-- …and the value is in bounds, if those that were known before are. -/
theorem bounded (numbers : encoding.Numbers known names)
    (fits : ∀ {name : String} {value : Nat}, known[name]? = some value → value ≤ largestProgram)
    {name : String} {value : Nat} (bound : encoding.symbols[name]? = some value) : value ≤ largestProgram := by
  rcases (numbers.symbols name value).mp bound with isKnown | ⟨i, found, rfl⟩
  · exact fits isKnown
  · have within := (List.getElem?_eq_some_iff.mp found).1
    have next := numbers.next
    have below : encoding.nextVariable ≤ largestProgram := numbers.below.trans (by decide)
    omega

/-- A name without a value gets the next cell. -/
theorem allocate (numbers : encoding.Numbers known names) {fresh : String}
    (unbound : encoding.symbols[fresh]? = none) (room : encoding.nextVariable < screen) :
    Numbers { encoding with
      symbols := encoding.symbols.insert fresh encoding.nextVariable
      nextVariable := encoding.nextVariable + 1 } known (names ++ [fresh]) := by
  obtain ⟨unknown, new⟩ := numbers.of_unbound unbound
  refine ⟨fun name value => ?_, ?_, room⟩
  · show (encoding.symbols.insert fresh encoding.nextVariable)[name]? = some value ↔ _
    rw [getElem?_insert_symbol, numbers.next]
    simp only [getElem?_concat_eq_some_iff]
    split
    · rename_i same
      subst same
      have unmet (i : Nat) : names[i]? ≠ some fresh := fun found => new (List.mem_of_getElem? found)
      simp [unknown, unmet, eq_comm]
    · rename_i other
      simp [numbers.symbols, other]
  · rw [List.length_append, numbers.next]
    rfl

/-- **An address instruction** that is accepted gives out a cell if it names something for the first time, and
makes a word of the value. -/
theorem address (numbers : encoding.Numbers known (distinctUnknown known used))
    (fits : ∀ {name : String} {value : Nat}, known[name]? = some value → value ≤ largestProgram)
    {target : List Char}
    (accepted : encoding.address target = .ok after) :
    after.Numbers known (distinctUnknown known (used ++ (SourceLine.address target).used?.toList)) ∧
      ∃ word, after.words = encoding.words.push word ∧
        (SourceLine.address target).HasWord after.symbols word := by
  rw [Encoding.address] at accepted
  rw [SourceLine.used?]
  simp only [SourceLine.HasWord]
  split at accepted
  · -- a number
    rename_i digit
    split at accepted
    · rename_i value read
      obtain rfl := Except.ok.inj accepted
      obtain ⟨digits, same⟩ := natural?_of_digit digit read
      have small : value < 2 ^ 16 := (natural?_le read).trans_lt (by decide)
      rw [if_pos digit, Option.toList_none, List.append_nil]
      refine ⟨numbers.push _, _, rfl, ?_⟩
      rw [if_pos digit, BitVec.toNat_ofNat, Nat.mod_eq_of_lt small]
      exact ⟨digits, same⟩
    · cases accepted
  · rename_i noDigit
    rw [if_neg noDigit, Option.toList_some]
    simp only [if_neg noDigit]
    split at accepted
    · -- a name that has a value
      rename_i value bound
      obtain rfl := Except.ok.inj accepted
      have small : value < 2 ^ 16 := (numbers.bounded fits bound).trans_lt (by decide)
      rw [distinctUnknown_concat_of_met (numbers.met bound)]
      refine ⟨numbers.push _, _, rfl, ?_⟩
      rw [BitVec.toNat_ofNat, Nat.mod_eq_of_lt small]
      exact bound
    · -- a name without a value
      rename_i unbound
      split at accepted
      · cases accepted
      · split at accepted
        · rename_i room
          obtain rfl := Except.ok.inj accepted
          obtain ⟨unknown, new⟩ := numbers.of_unbound unbound
          rw [distinctUnknown_concat_of_new unknown new]
          refine ⟨(numbers.push _).allocate unbound room, _, rfl, ?_⟩
          have small : encoding.nextVariable < 2 ^ 16 := room.trans (by decide)
          rw [getElem?_insert_symbol, if_pos rfl, BitVec.toNat_ofNat, Nat.mod_eq_of_lt small]
        · cases accepted

/-- **A line** that is accepted. -/
theorem step (numbers : encoding.Numbers known (distinctUnknown known used))
    (fits : ∀ {name : String} {value : Nat}, known[name]? = some value → value ≤ largestProgram)
    {line : Nat} {content : SourceLine} (accepted : encoding.step (line, content) = .ok after) :
    after.Numbers known (distinctUnknown known (used ++ content.used?.toList)) ∧
      ∃ words, after.words.toList = encoding.words.toList ++ words ∧
        List.Forall₂ (SourceLine.HasWord after.symbols) (instructionsOf [(line, content)]) words := by
  cases content with
  | label name =>
      obtain rfl := Except.ok.inj accepted
      have unused : (SourceLine.label name).used? = none := rfl
      rw [unused, Option.toList_none, List.append_nil]
      exact ⟨numbers, [], (List.append_nil _).symm, .nil⟩
  | address target =>
      obtain ⟨later, word, pushed, has⟩ := numbers.address fits (mapError_eq_ok accepted)
      exact ⟨later, [word], by rw [pushed, Array.toList_push], .cons has .nil⟩
  | compute text =>
      rw [Encoding.step] at accepted
      split at accepted
      · rename_i instruction read
        obtain rfl := Except.ok.inj accepted
        have unused : (SourceLine.compute text).used? = none := rfl
        rw [unused, Option.toList_none, List.append_nil]
        exact ⟨numbers.push _, [instruction.encode], Array.toList_push, .cons ⟨instruction, read, rfl⟩ .nil⟩
      · cases accepted

/-- **The second pass** gives out cells in the order of first appearance, and makes words of the values that names
have in the end. -/
theorem run (numbers : encoding.Numbers known (distinctUnknown known used))
    (fits : ∀ {name : String} {value : Nat}, known[name]? = some value → value ≤ largestProgram)
    {lines : List (Nat × SourceLine)} (ran : lines.foldlM Encoding.step encoding = .ok after) :
    after.Numbers known (distinctUnknown known (used ++ (lines.map (·.2)).filterMap (·.used?))) ∧
      ∃ words, after.words.toList = encoding.words.toList ++ words ∧
        List.Forall₂ (SourceLine.HasWord after.symbols) (instructionsOf lines) words := by
  induction lines generalizing encoding used with
  | nil =>
      obtain rfl := Except.ok.inj ran
      rw [List.map_nil, List.filterMap_nil, List.append_nil]
      exact ⟨numbers, [], (List.append_nil _).symm, .nil⟩
  | cons numbered rest ih =>
      obtain ⟨line, content⟩ := numbered
      obtain ⟨between, stepped, ran⟩ := foldlM_cons_eq_ok ran
      obtain ⟨numbersBetween, here, pushed, has⟩ := numbers.step fits stepped
      obtain ⟨numbersAfter, others, appended, hasOthers⟩ := ih numbersBetween ran
      have whole : used ++ content.used?.toList ++ (rest.map (·.2)).filterMap (·.used?) =
          used ++ (((line, content) :: rest).map (·.2)).filterMap (·.used?) := by
        rw [List.append_assoc, List.map_cons, List.filterMap_cons]
        cases content.used? <;> rfl
      rw [← whole]
      refine ⟨numbersAfter, here ++ others, by rw [appended, pushed, List.append_assoc], ?_⟩
      -- the first words are told from the values that names have in the end as well
      obtain ⟨behind, grown⟩ := distinctUnknown_append known (used ++ content.used?.toList)
        ((rest.map (·.2)).filterMap (·.used?))
      rw [← List.singleton_append, instructionsOf_append]
      refine List.rel_append (has.imp fun _ _ => .mono ?_) hasOthers
      exact numbersBetween.extends_ (grown ▸ numbersAfter)

end Encoding.Numbers

/-! ## Both passes -/

/-- Whether a line takes a word. -/
def takesWord (line : List Char) : Bool := (seenIn? line).any (·.isInstruction)

/-- The lines that take a word, counted. -/
theorem length_instructionLines (source : String) :
    (instructionLines source).length = (lines source.toList).countP takesWord := by
  unfold instructionLines instructionsOf
  rw [map_snd_sourceLines, ← List.countP_eq_length_filter, List.countP_filterMap]
  refine List.countP_congr fun line _ => ?_
  unfold takesWord
  cases seenIn? line <;> rfl

/-- The predefined symbols are exactly those that are listed. -/
theorem predefined_eq_some_iff {name : String} {value : Nat} :
    predefined[name]? = some value ↔ (name, value) ∈ predefinedList := by
  refine ⟨mem_predefinedList, fun member => ?_⟩
  have distinct : predefinedList.Pairwise fun a b => ¬compare a.1 b.1 = .eq := by decide
  exact Std.TreeMap.getElem?_ofList_of_mem Std.ReflCmp.compare_self distinct member

section FirstPass

variable {source : String} {layout : Layout}

/-- What the first pass knows in the end: predefined symbols, and labels with the number of instructions in front of
them. -/
theorem layout_knows_iff (ran : (sourceLines source).foldlM Layout.step {} = .ok layout) {name : String}
    {value : Nat} : layout.symbols[name]? = some value ↔
      (name, value) ∈ predefinedList ∨ DeclaredBehind (sourceLines source) name value := by
  refine ⟨fun bound => ?_, fun origin => ?_⟩
  · rw [layout_symbols ran, Option.or_eq_some_iff] at bound
    refine bound.imp mem_predefinedList fun ⟨_, found⟩ => ?_
    obtain ⟨behind, rfl, declared⟩ := exists_declaredBehind found
    exact (Nat.zero_add behind).symm ▸ declared
  · rcases origin with listed | declared
    · rw [layout_symbols ran]
      exact Option.or_eq_some_iff.mpr (.inl (predefined_eq_some_iff.mpr listed))
    · rw [bound_of_declaredBehind ran declared]
      exact congrArg some (Nat.zero_add value)

/-- All of it fits a word. -/
theorem layout_fits (ran : (sourceLines source).foldlM Layout.step {} = .ok layout) {name : String}
    {value : Nat} (bound : layout.symbols[name]? = some value) : value ≤ largestProgram := by
  rw [layout_symbols ran, Option.or_eq_some_iff] at bound
  rcases bound with known | ⟨-, found⟩
  · exact (predefined_fits known).trans (by decide)
  · exact (label_spec ran found (Nat.zero_le _)).2.2

/-- The names that it does not know are the variables. -/
theorem distinctUnknown_layout (ran : (sourceLines source).foldlM Layout.step {} = .ok layout) :
    distinctUnknown layout.symbols (((sourceLines source).map (·.2)).filterMap (·.used?)) =
      distinctVariables ((sourceLines source).map (·.2)) := by
  unfold distinctUnknown distinctVariables
  refine congrArg _ (List.filter_congr fun name _ => Bool.eq_iff_iff.mpr ?_)
  rw [Option.isNone_iff_eq_none, layout_symbols ran, Option.or_eq_none_iff, labelPosition_eq_none_iff,
    Bool.and_eq_true, Bool.not_eq_true', Bool.not_eq_true', ← Bool.not_eq_true, List.contains_iff_mem,
    Std.TreeMap.contains_eq_isSome_getElem?, Option.isSome_eq_false_iff, Option.isNone_iff_eq_none]
  exact and_comm

end FirstPass

section Assembled

variable {source : String} {assembled : Assembled} (ok : assemble source = .ok assembled)

include ok

/-- Behind both passes every variable has its cell, and every line its word. -/
theorem exists_numbers : ∃ (layout : Layout) (encoding : Encoding),
    (sourceLines source).foldlM Layout.step {} = .ok layout ∧
    encoding.Numbers layout.symbols (distinctVariables ((sourceLines source).map (·.2))) ∧
    assembled = ⟨encoding.words.toList, encoding.symbols⟩ ∧
    List.Forall₂ (SourceLine.HasWord assembled.symbols) (instructionLines source) assembled.words := by
  obtain ⟨layout, encoding, first, second, rfl⟩ := assemble_ok ok
  have start : Encoding.Numbers { symbols := layout.symbols } layout.symbols
      (distinctUnknown layout.symbols []) := .initial layout.symbols
  obtain ⟨numbers, words, grown, has⟩ := start.run (layout_fits first) second
  rw [List.nil_append, distinctUnknown_layout first] at numbers
  have same : encoding.words.toList = words := grown
  exact ⟨layout, encoding, first, numbers, rfl, same ▸ has⟩

/-- The words of an assembled text are those of its lines, at the values that names have in the end… -/
theorem hasWord_of_assemble :
    List.Forall₂ (SourceLine.HasWord assembled.symbols) (instructionLines source) assembled.words := by
  obtain ⟨-, -, -, -, -, has⟩ := exists_numbers ok
  exact has

/-- …which are those of predefined symbols, labels and variables. -/
theorem symbols_eq_some_iff {name : String} {value : Nat} : assembled.symbols[name]? = some value ↔
    (name, value) ∈ predefinedList ∨ DeclaredBehind (sourceLines source) name value ∨
      ∃ i, (distinctVariables ((sourceLines source).map (·.2)))[i]? = some name ∧
        value = firstVariable + i := by
  obtain ⟨layout, encoding, first, numbers, rfl, -⟩ := exists_numbers ok
  rw [numbers.symbols, layout_knows_iff first, or_assoc]

/-- The cells of all variables lie below the screen. -/
theorem variables_below_screen :
    firstVariable + (distinctVariables ((sourceLines source).map (·.2))).length ≤ screen := by
  obtain ⟨layout, encoding, -, numbers, -, -⟩ := exists_numbers ok
  exact numbers.next ▸ numbers.below

end Assembled

/-- **The two passes agree.**  An assembled text has a word for each line but labels and those without code.  The
word of an address line is the number that its digits write, or the value of its name.  The symbols are exactly the
predefined ones with their values, the labels with the number of words in front of them, wherever they are declared,
and the variables with the cells behind the registers, in the order of first appearance and below the screen. -/
theorem passes_agree {source : String} {assembled : Assembled} (ok : assemble source = .ok assembled) :
    assembled.words.length = (lines source.toList).countP takesWord ∧
      List.Forall₂ (SourceLine.HasWord assembled.symbols) (instructionLines source) assembled.words ∧
      (∀ name value, assembled.symbols[name]? = some value ↔
        (name, value) ∈ predefinedList ∨ DeclaredBehind (sourceLines source) name value ∨
          ∃ i, (distinctVariables ((sourceLines source).map (·.2)))[i]? = some name ∧
            value = firstVariable + i) ∧
      firstVariable + (distinctVariables ((sourceLines source).map (·.2))).length ≤ screen := by
  refine ⟨?_, hasWord_of_assemble ok, fun name value => symbols_eq_some_iff ok, variables_below_screen ok⟩
  rw [← length_instructionLines]
  exact (hasWord_of_assemble ok).length_eq.symm

/-- A text that jumps to a label ahead and uses a variable on both sides of it. -/
def crossing : String := "@END\nD;JGT // leaves\n\n@x\n@y\n(END)\n@x\n"

/-- Its label stands behind four instructions, and its two variables have the first two cells. -/
theorem crossing_passes_agree : ∃ assembled, assemble crossing = .ok assembled ∧
    assembled.words.map (·.toNat) = [4, 58113, 16, 17, 16] ∧
    (lines crossing.toList).countP takesWord = 5 ∧
    distinctVariables ((sourceLines crossing).map (·.2)) = ["x", "y"] ∧
    assembled.words.length = (lines crossing.toList).countP takesWord ∧
      List.Forall₂ (SourceLine.HasWord assembled.symbols) (instructionLines crossing) assembled.words ∧
      (∀ name value, assembled.symbols[name]? = some value ↔
        (name, value) ∈ predefinedList ∨ DeclaredBehind (sourceLines crossing) name value ∨
          ∃ i, (distinctVariables ((sourceLines crossing).map (·.2)))[i]? = some name ∧
            value = firstVariable + i) ∧
      firstVariable + (distinctVariables ((sourceLines crossing).map (·.2))).length ≤ screen := by
  have words : (assemble crossing).toOption.map (fun assembled => assembled.words.map (·.toNat)) =
      some [4, 58113, 16, 17, 16] := rfl
  cases ok : assemble crossing with
  | error cause =>
      rw [ok] at words
      exact absurd words nofun
  | ok assembled =>
      rw [ok] at words
      exact ⟨assembled, rfl, Option.some.inj words, rfl, rfl, passes_agree ok⟩

end JackToolchain.Hack

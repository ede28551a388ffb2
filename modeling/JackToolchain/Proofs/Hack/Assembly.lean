import Mathlib.Data.List.Forall2
import JackToolchain.Hack.Assembler
import JackToolchain.Proofs.Hack.Machine
import JackToolchain.Proofs.Results

/-!
# The two passes

What the two passes over the lines of an assembly text do to symbols and words.

## Main Definitions

* `instructionLines` — the lines that take a word.
* `labelPosition?` — the number of words in front of the declaration of a label.
* `Known` — what is known about the symbols while words are encoded: labels have their positions, and
  everything else fits an address instruction.
* `Encodes` — the word of a line.

## Main Statements

* `layout_symbols` — the first pass binds every label to its position and nothing else.
* `encoding_words` — the second pass appends one word for each line that takes one.
-/

namespace JackToolchain.Hack

open Text

/-! ## Lines and labels -/

/-- Whether a line takes a word. -/
def SourceLine.isInstruction : SourceLine → Bool
  | .label _ => false
  | .address _ | .compute _ => true

/-- The lines among numbered lines that take a word. -/
def instructionsOf (lines : List (Nat × SourceLine)) : List SourceLine :=
  (lines.map (·.2)).filter (·.isInstruction)

/-- The lines of a text that take a word, in order. -/
def instructionLines (source : String) : List SourceLine := instructionsOf (sourceLines source)

/-- The number of words in front of the first declaration of a label, counted from a position on. -/
def labelPosition? (name : String) : Nat → List (Nat × SourceLine) → Option Nat
  | _, [] => none
  | position, (_, .label label) :: rest =>
    if String.ofList label = name then some position else labelPosition? name position rest
  | position, (_, .address _) :: rest | position, (_, .compute _) :: rest =>
    labelPosition? name (position + 1) rest

/-- A label has no more words in front of it than there are. -/
theorem labelPosition_le_length {name : String} {first position : Nat}
    {lines : List (Nat × SourceLine)} (found : labelPosition? name first lines = some position) :
    position ≤ first + (instructionsOf lines).length := by
  induction lines generalizing first with
  | nil => exact absurd found (by simp [labelPosition?])
  | cons numbered rest ih =>
      obtain ⟨line, content⟩ := numbered
      cases content with
      | label label =>
          rw [labelPosition?] at found
          split at found
          · exact (Option.some.inj found) ▸ Nat.le_add_right ..
          · exact ih found
      | address | compute =>
          have behind := ih found
          show position ≤ first + ((instructionsOf rest).length + 1)
          omega

/-! ## Symbols -/

/-- What a symbol stands for once another one is bound. -/
theorem getElem?_insert_symbol (symbols : Symbols) (bound name : String) (value : Nat) :
    (symbols.insert bound value)[name]? = if bound = name then some value else symbols[name]? := by
  rw [Std.TreeMap.getElem?_insert]
  exact if_congr Std.LawfulEqCmp.compare_eq_iff_eq rfl rfl

/-! ## The first pass -/

section Layout

variable {layout after : Layout} {line : Nat} {lines : List (Nat × SourceLine)}

/-- A label that is accepted is a symbol of its own, and is bound to the next position. -/
theorem Layout.step_label {label : List Char}
    (stepped : layout.step (line, .label label) = .ok after) :
    isSymbol label = true ∧ layout.symbols[String.ofList label]? = none ∧
      after = { layout with
        symbols := layout.symbols.insert (String.ofList label) layout.next } := by
  rw [Layout.step] at stepped
  cases symbol : isSymbol label with
  | false => simp [symbol] at stepped
  | true =>
      cases declared : layout.symbols.contains (String.ofList label) with
      | true => simp [symbol, declared] at stepped
      | false =>
          simp only [symbol, declared, Bool.not_true, Bool.false_eq_true, if_false,
            Except.ok.injEq] at stepped
          refine ⟨rfl, ?_, stepped.symm⟩
          rw [Std.TreeMap.contains_eq_isSome_getElem?] at declared
          exact Option.isSome_eq_false_iff.mp declared |> Option.isNone_iff_eq_none.mp

/-- A symbol that is not known is accepted as a label. -/
theorem Layout.step_label_of_fresh {label : List Char} (symbol : isSymbol label = true)
    (fresh : layout.symbols.contains (String.ofList label) = false) :
    layout.step (line, .label label) = .ok { layout with
      symbols := layout.symbols.insert (String.ofList label) layout.next } := by
  rw [Layout.step]
  simp only [symbol, fresh, Bool.not_true, Bool.false_eq_true, if_false]

/-- Any other line moves on by one, as long as the program may grow. -/
theorem Layout.step_instruction {instruction : SourceLine}
    (takesWord : instruction.isInstruction = true)
    (stepped : layout.step (line, instruction) = .ok after) :
    layout.next < largestProgram ∧ after = { layout with next := layout.next + 1 } := by
  cases instruction with
  | label name => exact absurd takesWord Bool.false_ne_true
  | address | compute =>
      rw [Layout.step] at stepped
      split at stepped
      · rename_i room
        exact ⟨room, (Except.ok.inj stepped).symm⟩
      · exact absurd stepped (by simp)
      · nofun

/-- **The first pass** leaves the symbols that it knew and binds every label to its position. -/
theorem layout_symbols (ran : lines.foldlM Layout.step layout = .ok after) (name : String) :
    after.symbols[name]? =
      (layout.symbols[name]?).or (labelPosition? name layout.next lines) := by
  induction lines generalizing layout with
  | nil =>
      obtain rfl := Except.ok.inj ran
      exact Option.or_none.symm
  | cons numbered rest ih =>
      obtain ⟨line, content⟩ := numbered
      obtain ⟨between, stepped, ran⟩ := foldlM_cons_eq_ok ran
      rw [ih ran]
      cases content with
      | label label =>
          obtain ⟨-, fresh, rfl⟩ := Layout.step_label stepped
          rw [getElem?_insert_symbol, labelPosition?]
          split
          · rename_i same
            rw [← same, fresh]
            rfl
          · rfl
      | address | compute =>
          obtain ⟨-, rfl⟩ := Layout.step_instruction rfl stepped
          rfl

/-- A label of an accepted text is a symbol that was not known, and lies in front of at most as many
words as a program may have. -/
theorem label_spec (ran : lines.foldlM Layout.step layout = .ok after) {name : String}
    {position : Nat} (found : labelPosition? name layout.next lines = some position)
    (bounded : layout.next ≤ largestProgram) :
    isSymbol name.toList = true ∧ layout.symbols[name]? = none ∧ position ≤ largestProgram := by
  induction lines generalizing layout with
  | nil => exact absurd found (by simp [labelPosition?])
  | cons numbered rest ih =>
      obtain ⟨line, content⟩ := numbered
      obtain ⟨between, stepped, ran⟩ := foldlM_cons_eq_ok ran
      cases content with
      | label label =>
          obtain ⟨symbol, fresh, rfl⟩ := Layout.step_label stepped
          rw [labelPosition?] at found
          split at found
          · rename_i same
            obtain rfl := Option.some.inj found
            rw [← same, String.toList_ofList]
            exact ⟨symbol, fresh, bounded⟩
          · rename_i other
            obtain ⟨isName, unknown, inFront⟩ := ih ran found bounded
            rw [getElem?_insert_symbol, if_neg other] at unknown
            exact ⟨isName, unknown, inFront⟩
      | address | compute =>
          obtain ⟨room, rfl⟩ := Layout.step_instruction rfl stepped
          have later := ih ran found room
          exact later

end Layout

/-! ## The second pass -/

/-- What is known about the symbols of a text while it is encoded: labels have their positions, and
everything else fits an address instruction. -/
def Known (lines : List (Nat × SourceLine)) (symbols : Symbols) : Prop :=
  ∀ name, match labelPosition? name 0 lines with
    | some position => symbols[name]? = some position
    | none => ∀ value ∈ symbols[name]?, value ≤ largestConstant

/-- **The word of a line**: a compute instruction has its three leading bits set; an address instruction
has the position of the label that it names, and otherwise a number that leaves its leading bit
clear. -/
def Encodes (lines : List (Nat × SourceLine)) : SourceLine → Word → Prop
  | .label _, _ => False
  | .compute _, word => word.extractLsb' 13 3 = 0b111#3
  | .address target, word =>
    match labelPosition? (String.ofList target) 0 lines with
    | some position => word = BitVec.ofNat 16 position
    | none => word.toNat ≤ largestConstant

/-- The leading bits of an encoded instruction are set. -/
theorem encode_leading (compute : Compute) : compute.encode.extractLsb' 13 3 = 0b111#3 := by
  apply BitVec.eq_of_getLsbD_eq
  intro i small
  rw [BitVec.getLsbD_extractLsb', encode_getLsbD, if_neg (by omega), if_neg (by omega),
    if_neg (by omega), if_neg (by omega), Nat.add_sub_cancel_left, decide_eq_true small,
    Bool.true_and]

/-- A number that fits an address instruction is encoded as itself. -/
theorem toNat_fitting {value : Nat} (fits : value ≤ largestConstant) :
    (BitVec.ofNat 16 value).toNat ≤ largestConstant := by
  rw [BitVec.toNat_ofNat]
  exact Nat.le_trans (Nat.mod_le ..) fits

namespace Known

variable {lines : List (Nat × SourceLine)} {symbols : Symbols} (known : Known lines symbols)

include known

/-- What is not known is not a label. -/
theorem labelPosition_none {name : String} (fresh : symbols[name]? = none) :
    labelPosition? name 0 lines = none := by
  have atName := known name
  cases found : labelPosition? name 0 lines with
  | none => rfl
  | some position =>
      rw [found] at atName
      exact absurd (atName.symm.trans fresh) (Option.some_ne_none _)

/-- The value of a known symbol is the word of a line that names it. -/
theorem encodes {target : List Char} {value : Nat}
    (bound : symbols[String.ofList target]? = some value) :
    Encodes lines (.address target) (BitVec.ofNat 16 value) := by
  have atName := known (String.ofList target)
  rw [bound] at atName
  rw [Encodes]
  cases found : labelPosition? (String.ofList target) 0 lines with
  | some position =>
      rw [found] at atName
      exact congrArg _ (Option.some.inj atName)
  | none =>
      rw [found] at atName
      exact toNat_fitting (atName value rfl)

/-- A new symbol whose value fits an address instruction changes nothing about what is known. -/
theorem insert {bound : String} {value : Nat} (fresh : symbols[bound]? = none)
    (fits : value ≤ largestConstant) : Known lines (symbols.insert bound value) := by
  intro name
  rw [getElem?_insert_symbol]
  by_cases same : bound = name
  · subst same
    rw [if_pos rfl, known.labelPosition_none fresh]
    rintro _ ⟨⟩
    exact fits
  · rw [if_neg same]
    exact known name

end Known

section Encoding

variable {all : List (Nat × SourceLine)} {encoding after : Encoding}

/-- What begins with a digit is no symbol. -/
theorem isSymbol_eq_false {target : List Char} (digit : target.head?.any Char.isDigit = true) :
    isSymbol target = false := by
  cases target with
  | nil => exact absurd digit Bool.false_ne_true
  | cons c rest =>
      have isDigit : c.isDigit = true := digit
      rw [isSymbol, isDigit]
      rfl

/-- **Address instructions.**  One that is accepted appends one word and keeps what is known. -/
theorem address_spec {target : List Char}
    (symbols : ∀ name position, labelPosition? name 0 all = some position →
      isSymbol name.toList = true)
    (known : Known all encoding.symbols) (accepted : encoding.address target = .ok after) :
    Known all after.symbols ∧
      ∃ word, after.words = encoding.words.push word ∧ Encodes all (.address target) word := by
  rw [Encoding.address] at accepted
  split at accepted
  · -- a number: labels are symbols, so it names none
    rename_i digit
    have noLabel : labelPosition? (String.ofList target) 0 all = none := by
      by_contra found
      obtain ⟨position, found⟩ := Option.ne_none_iff_exists'.mp found
      have symbol := symbols _ _ found
      rw [String.toList_ofList, isSymbol_eq_false digit] at symbol
      exact Bool.false_ne_true symbol
    split at accepted
    · rename_i value read
      obtain rfl := Except.ok.inj accepted
      refine ⟨known, _, rfl, ?_⟩
      rw [Encodes, noLabel]
      exact toNat_fitting (natural?_le read)
    · exact absurd accepted (by simp)
  · split at accepted
    · -- a known symbol
      rename_i value bound
      obtain rfl := Except.ok.inj accepted
      exact ⟨known, _, rfl, known.encodes bound⟩
    · rename_i fresh
      split at accepted
      · exact absurd accepted (by simp)
      · split at accepted
        · -- a new variable, which lies below the screen memory
          rename_i room
          have fits : encoding.nextVariable ≤ largestConstant :=
            Nat.le_trans (Nat.le_of_lt room) (by decide)
          obtain rfl := Except.ok.inj accepted
          refine ⟨known.insert fresh fits, _, rfl, ?_⟩
          rw [Encodes, known.labelPosition_none fresh]
          exact toNat_fitting fits
        · exact absurd accepted (by simp)

/-- A known symbol that does not begin with a digit is accepted, and encoded as its value. -/
theorem step_address_of_known {line : Nat} {target : List Char} {value : Nat}
    (name : target.head?.any Char.isDigit = false)
    (bound : encoding.symbols[String.ofList target]? = some value) :
    encoding.step (line, .address target) = .ok (encoding.push (BitVec.ofNat 16 value)) := by
  simp [Encoding.step, Encoding.address, name, bound, Except.mapError]

/-- **Compute instructions.**  One that is accepted appends one word and keeps the symbols. -/
theorem compute_spec (all : List (Nat × SourceLine)) {line : Nat} {text : List Char}
    (accepted : encoding.step (line, .compute text) = .ok after) :
    after.symbols = encoding.symbols ∧
      ∃ word, after.words = encoding.words.push word ∧ Encodes all (.compute text) word := by
  rw [Encoding.step] at accepted
  split at accepted
  · rename_i instruction read
    obtain rfl := Except.ok.inj accepted
    exact ⟨rfl, _, rfl, encode_leading instruction⟩
  · exact absurd accepted (by simp)

/-- **The second pass** appends one word for each line that takes one. -/
theorem encoding_words {lines : List (Nat × SourceLine)}
    (symbols : ∀ name position, labelPosition? name 0 all = some position →
      isSymbol name.toList = true)
    (known : Known all encoding.symbols) (ran : lines.foldlM Encoding.step encoding = .ok after) :
    ∃ words, after.words.toList = encoding.words.toList ++ words ∧
      List.Forall₂ (Encodes all) (instructionsOf lines) words := by
  induction lines generalizing encoding with
  | nil =>
      obtain rfl := Except.ok.inj ran
      exact ⟨[], (List.append_nil _).symm, .nil⟩
  | cons numbered rest ih =>
      obtain ⟨line, content⟩ := numbered
      obtain ⟨between, stepped, ran⟩ := foldlM_cons_eq_ok ran
      -- what both kinds of instruction leave to the rest of the run
      have finish {word : Word} (known : Known all between.symbols)
          (grown : between.words = encoding.words.push word) (encodes : Encodes all content word) :
          ∃ words, after.words.toList = encoding.words.toList ++ words ∧
            List.Forall₂ (Encodes all) (content :: instructionsOf rest) words := by
        obtain ⟨words, appended, encoded⟩ := ih known ran
        refine ⟨word :: words, ?_, .cons encodes encoded⟩
        rw [appended, grown, Array.toList_push, List.append_assoc]
        rfl
      cases content with
      | label name =>
          obtain rfl := Except.ok.inj stepped
          exact ih known ran
      | address target =>
          obtain ⟨known, word, pushed, encodes⟩ :=
            address_spec symbols known (mapError_eq_ok stepped)
          exact finish known pushed encodes
      | compute text =>
          obtain ⟨same, word, pushed, encodes⟩ := compute_spec all stepped
          exact finish (same ▸ known) pushed encodes

end Encoding

/-! ## Both passes -/

section Assemble

variable {source : String} {assembled : Assembled}

/-- What every program knows is listed. -/
theorem mem_predefinedList {name : String} {value : Nat} (known : predefined[name]? = some value) :
    (name, value) ∈ predefinedList := by
  have listed : predefined.contains name = true := by
    rw [Std.TreeMap.contains_eq_isSome_getElem?, known]
    rfl
  rw [predefined, Std.TreeMap.contains_ofList, List.contains_iff_mem, List.mem_map] at listed
  obtain ⟨⟨_, value'⟩, member, rfl⟩ := listed
  have distinct : predefinedList.Pairwise fun a b => ¬compare a.1 b.1 = .eq := by decide
  rw [predefined, Std.TreeMap.getElem?_ofList_of_mem Std.ReflCmp.compare_self distinct member]
    at known
  obtain rfl := Option.some.inj known
  exact member

/-- It fits an address instruction. -/
theorem predefined_fits {name : String} {value : Nat} (known : predefined[name]? = some value) :
    value ≤ largestConstant := by
  have bounded : ∀ symbol ∈ predefinedList, symbol.2 ≤ largestConstant := by decide
  exact bounded _ (mem_predefinedList known)

/-- The two runs behind an assembled text. -/
theorem assemble_ok (ok : assemble source = .ok assembled) :
    ∃ layout encoding, (sourceLines source).foldlM Layout.step {} = .ok layout ∧
      (sourceLines source).foldlM Encoding.step { symbols := layout.symbols } = .ok encoding ∧
      assembled = ⟨encoding.words.toList, encoding.symbols⟩ := by
  obtain ⟨layout, first, ok⟩ := both_ok ok
  obtain ⟨encoding, second, ok⟩ := both_ok ok
  exact ⟨layout, encoding, first, second, (Except.ok.inj ok).symm⟩

/-- Two runs that succeed assemble a text. -/
theorem assemble_of_ok {layout : Layout} {encoding : Encoding}
    (first : (sourceLines source).foldlM Layout.step {} = .ok layout)
    (second : (sourceLines source).foldlM Encoding.step { symbols := layout.symbols } =
      .ok encoding) :
    assemble source = .ok ⟨encoding.words.toList, encoding.symbols⟩ := by
  simp only [assemble, first, second, bind, Except.bind]
  rfl

/-- **The words of an assembled text** are the words of its lines, in order. -/
theorem assemble_words (ok : assemble source = .ok assembled) :
    List.Forall₂ (Encodes (sourceLines source)) (instructionLines source) assembled.words := by
  obtain ⟨layout, encoding, first, second, rfl⟩ := assemble_ok ok
  have known : Known (sourceLines source) layout.symbols := by
    intro name
    rw [layout_symbols first name]
    cases found : labelPosition? name 0 (sourceLines source) with
    | some position =>
        have fresh := (label_spec first found (Nat.zero_le _)).2.1
        exact fresh ▸ rfl
    | none =>
        intro value bound
        rw [Option.or_none] at bound
        exact predefined_fits bound
  obtain ⟨words, grown, encoded⟩ := encoding_words
    (fun name position found => (label_spec first found (Nat.zero_le _)).1) known second
  rw [grown]
  exact encoded

/-- A label of an assembled text lies in front of at most as many words as a program may have. -/
theorem labelPosition_le (ok : assemble source = .ok assembled) {name : String} {position : Nat}
    (found : labelPosition? name 0 (sourceLines source) = some position) :
    position ≤ largestProgram := by
  obtain ⟨layout, encoding, first, -⟩ := assemble_ok ok
  exact (label_spec first found (Nat.zero_le _)).2.2

end Assemble

end JackToolchain.Hack

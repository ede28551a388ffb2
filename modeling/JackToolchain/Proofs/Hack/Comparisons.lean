import JackToolchain.Proofs.Hack.Simulation

/-!
# Comparisons

The code of a comparison takes the sign of the difference of its operands for the verdict.  When that is the
verdict on the two operands as signed numbers.

## Main Definitions

* `signedVerdict` — the verdict of a comparison on two words that are taken as signed numbers.
* `differenceVerdict` — the verdict that the sign of their difference suggests.

## Main Statements

* `differenceVerdict_eq_signedVerdict_iff` — the two are the same exactly if equality is asked for, or the
  difference does not overflow.
* `comparison_signed_iff_no_overflow` — so the code of a comparison compares signed numbers exactly then.

## Design Notes

Equality is never missed, since a difference is zero only for equal words.  Of two numbers whose difference does
not fit a word the order is always inverted; `largest_less_than_negative` is such a pair.
-/

namespace JackToolchain.Hack

open Vm

/-! ## Verdicts -/

/-- **The verdict** of a comparison on two words that are taken as signed numbers. -/
def signedVerdict (x y : Word) : Operation → Bool
  | .eq => x.toInt = y.toInt
  | .gt => y.toInt < x.toInt
  | .lt => x.toInt < y.toInt
  | .add | .sub | .neg | .and | .or | .not => false

/-- The verdict that the sign of their difference suggests. -/
def differenceVerdict (x y : Word) : Operation → Bool
  | .eq => (x - y).toInt = 0
  | .gt => 0 < (x - y).toInt
  | .lt => (x - y).toInt < 0
  | .add | .sub | .neg | .and | .or | .not => false

/-- The difference of two words is that of their values, unless it overflows; then it has the opposite sign. -/
theorem toInt_sub_cases (x y : Word) :
    x.ssubOverflow y = false ∧ (x - y).toInt = x.toInt - y.toInt ∨
      x.ssubOverflow y = true ∧
        ((x - y).toInt < 0 ∧ y.toInt < x.toInt ∨ 0 < (x - y).toInt ∧ x.toInt < y.toInt) := by
  cases overflow : x.ssubOverflow y with
  | false => exact .inl ⟨rfl, BitVec.toInt_sub_of_not_ssubOverflow (Bool.eq_false_iff.mp overflow)⟩
  | true =>
      refine .inr ⟨rfl, ?_⟩
      have outside : 32768 ≤ x.toInt - y.toInt ∨ x.toInt - y.toInt < -32768 := by
        simpa [BitVec.ssubOverflow] using overflow
      have difference : (x - y).toInt = (x.toInt - y.toInt).bmod 65536 := BitVec.toInt_sub
      have bounds := And.intro x.le_toInt x.toInt_lt
      have boundsToo := And.intro y.le_toInt y.toInt_lt
      rw [Int.bmod_def] at difference
      split at difference <;> omega

/-- A difference is zero only for equal numbers. -/
theorem toInt_sub_eq_zero_iff (x y : Word) : (x - y).toInt = 0 ↔ x.toInt = y.toInt := by
  rcases toInt_sub_cases x y with ⟨-, difference⟩ | ⟨-, inverted⟩ <;> omega

/-- **The sign of the difference** is the verdict exactly if equality is asked for, or the difference does not
overflow. -/
theorem differenceVerdict_eq_signedVerdict_iff (x y : Word) {operation : Operation}
    (comparison : isComparison operation = true) :
    differenceVerdict x y operation = signedVerdict x y operation ↔
      operation = .eq ∨ x.ssubOverflow y = false := by
  cases operation with
  | eq =>
      refine iff_of_true ?_ (.inl rfl)
      rw [differenceVerdict, signedVerdict, decide_eq_decide]
      exact toInt_sub_eq_zero_iff x y
  | gt | lt =>
      rw [differenceVerdict, signedVerdict, decide_eq_decide, or_iff_right nofun]
      rcases toInt_sub_cases x y with ⟨fits, difference⟩ | ⟨overflow, inverted⟩
      · refine iff_of_true ?_ fits
        omega
      · rw [overflow]
        refine iff_of_false ?_ nofun
        omega
  | add | sub | neg | and | or | not => exact absurd comparison nofun

/-! ## Code -/

theorem truth_injective : Function.Injective truth := by
  unfold Function.Injective
  decide

/-- Two ways of combining the two topmost values leave the same only if they combine them to the same. -/
theorem combine_eq_combine_iff {memory : Memory} {f g : Word → Word → Word} :
    memory.combine f = memory.combine g ↔
      f memory.drop.top memory.top = g memory.drop.top memory.top :=
  (Function.update_injective _ _).eq_iff

/-- A comparison combines the two topmost values to the verdict that the sign of their difference suggests. -/
theorem operate_comparison (memory : Memory) {operation : Operation}
    (comparison : isComparison operation = true) :
    memory.operate operation = memory.combine fun x y => truth (differenceVerdict x y operation) := by
  cases operation with
  | eq | gt | lt => rfl
  | add | sub | neg | and | or | not => exact absurd comparison nofun

/-- The block of a comparison leaves exactly what the comparison means. -/
theorem run_operationBlock_of_comparison {values : String → Nat} {rom : Nat → Word} {start n : Nat}
    {operation : Operation} (comparison : isComparison operation = true) (standard : Standard values)
    (store : Store) (loaded : Loaded rom values start (operationBlock n operation))
    (addressable : Addressable values (operationBlock n operation))
    (free : cell (store.memory 0 - 1#16) ≠ 0) :
    ∃ after : Store,
      Reaches rom ⟨store, start⟩ ⟨after, start + size (operationBlock n operation)⟩ ∧
        after.memory = store.memory.operate operation := by
  -- the jump is taken exactly when the verdict is negative
  have verdict {inverse : Jump} (same : ∀ x y : Word,
      (!inverse.taken (x - y)) = differenceVerdict x y operation)
      (loaded : Loaded rom values start (comparisonBlock n inverse))
      (addressable : Addressable values (comparisonBlock n inverse)) :
      ∃ after : Store, Reaches rom ⟨store, start⟩ ⟨after, start + size (comparisonBlock n inverse)⟩ ∧
        after.memory = store.memory.operate operation := by
    obtain ⟨after, ran, combined⟩ := run_comparisonBlock standard store loaded addressable free
    refine ⟨after, ran, ?_⟩
    rw [combined, operate_comparison _ comparison]
    simp only [same]
  cases operation with
  | eq =>
      refine verdict (fun x y => ?_) loaded addressable
      rw [Jump.taken, ← decide_not, differenceVerdict, decide_eq_decide, Decidable.not_not]
  | gt | lt =>
      refine verdict (fun x y => ?_) loaded addressable
      rw [Jump.taken, ← decide_not, differenceVerdict, decide_eq_decide, Int.not_le]
  | add | sub | neg | and | or | not => cases comparison

/-- **Comparisons.**  Let the lines of a comparison stand in memory, with everything they load within reach of
an address instruction, and let its two operands lie in the common memory.  Then the machine runs to the end of
the lines and leaves the verdict of the difference in place of the operands, and nothing else is changed; this
is the verdict on the operands as signed numbers exactly if the comparison is for equality or their difference
does not overflow. -/
theorem comparison_signed_iff_no_overflow {lowering : Lowering} {operation : Operation} {lines : List Line}
    {rom : Nat → Word} {values : String → Nat} {start : Nat} (store : Store)
    (comparison : isComparison operation = true)
    (emits : lowering.Emits (.operate operation) lines)
    (standard : Standard values)
    (addressable : Addressable values lines)
    (loaded : Loaded rom values start lines)
    (inRange : ∀ address ∈ stackCells store.memory (.operate operation),
      16 ≤ address ∧ address ≤ 32767) :
    ∃ after : Machine, Reaches rom ⟨store, start⟩ after ∧ after.counter = start + size lines ∧
      after.memory = store.memory.combine (fun x y => truth (differenceVerdict x y operation)) ∧
      (after.memory = store.memory.combine (fun x y => truth (signedVerdict x y operation)) ↔
        operation = .eq ∨ store.memory.drop.top.ssubOverflow store.memory.top = false) := by
  obtain ⟨block, found, rfl⟩ := emits.eq_block
  obtain rfl := Option.some.inj found
  have free : 16 ≤ cell (store.memory 0 - 1#16) :=
    (inRange _ (by cases operation <;> simp [stackCells])).1
  obtain ⟨after, ran, left⟩ := run_operationBlock_of_comparison comparison standard store
    (Lowering.loaded_of_notes loaded) (addressable_append.mp addressable).2 (by omega)
  rw [operate_comparison _ comparison] at left
  rw [size_append, Lowering.size_notes, Nat.zero_add]
  refine ⟨_, ran, rfl, left, ?_⟩
  rw [← differenceVerdict_eq_signedVerdict_iff _ _ comparison, ← truth_injective.eq_iff]
  dsimp only
  rw [left]
  exact combine_eq_combine_iff

/-! ## Two pairs -/

/-- The values of the predefined symbols, and of the labels of the first comparison. -/
private def labeledValues (name : String) : Nat :=
  ((predefinedList ++ [(comparisonFails 0, 12), (comparisonEnds 0, 15)]).lookup name).getD 0

/-- The lines of the first comparison for less. -/
private def lessLines : List Line := comparisonBlock 0 .ifNotNegative

/-- A memory with two values on the stack. -/
private def pairMemory (x y : Word) : Memory :=
  Function.update (Function.update (Function.update (fun _ => 0) 0 258) 256 x) 257 y

private theorem loaded_lessLines :
    Loaded (romOf (words labeledValues lessLines)) labeledValues 0 lessLines := by
  have placed : Placed labeledValues 0 lessLines := by decide
  have loaded := loaded_romOf [] [] placed
  rwa [List.append_nil, List.nil_append] at loaded

private theorem emits_lessLines : ({ annotate := false } : Lowering).Emits (.operate .lt) lessLines :=
  ⟨1, _, rfl, rfl⟩

/-- The smallest number is less than minus one. -/
theorem smallest_less_than_negative : ∃ after : Machine,
    Reaches (romOf (words labeledValues lessLines)) ⟨⟨0, 0, pairMemory (-32768) (-1)⟩, 0⟩ after ∧
      after.counter = 15 ∧
      after.memory = (pairMemory (-32768) (-1)).combine fun x y => truth (signedVerdict x y .lt) := by
  obtain ⟨after, ran, counter, -, signed⟩ :=
    comparison_signed_iff_no_overflow ⟨0, 0, pairMemory (-32768) (-1)⟩ rfl emits_lessLines
      (by decide) (by decide) loaded_lessLines (by decide)
  exact ⟨after, ran, counter, signed.mpr (.inr rfl)⟩

/-- **Overflow.**  The code finds the largest number less than minus one. -/
theorem largest_less_than_negative : ∃ after : Machine,
    Reaches (romOf (words labeledValues lessLines)) ⟨⟨0, 0, pairMemory 32767 (-1)⟩, 0⟩ after ∧
      after.counter = 15 ∧ after.memory 256 = -1 ∧ ¬(32767 : Word).toInt < (-1 : Word).toInt ∧
      after.memory ≠ (pairMemory 32767 (-1)).combine fun x y => truth (signedVerdict x y .lt) := by
  obtain ⟨after, ran, left⟩ := @run_operationBlock_of_comparison _ _ _ 0 .lt rfl
    (by decide) ⟨0, 0, pairMemory 32767 (-1)⟩ loaded_lessLines (by decide)
    (by decide)
  refine ⟨_, ran, rfl, ?_, by decide, fun signed => ?_⟩
  · rw [left]
    decide
  · rw [left, operate_comparison _ rfl, combine_eq_combine_iff, truth_injective.eq_iff,
      differenceVerdict_eq_signedVerdict_iff _ _ rfl] at signed
    exact absurd signed (by decide)

end JackToolchain.Hack

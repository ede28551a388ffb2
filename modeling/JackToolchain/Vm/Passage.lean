import JackToolchain.Vm.Instruction

/-!
# Passages

Code while it is put together.

* `Passage` — instructions, or two passages one behind the other.
* `Passage.code` — the instructions in order.

Putting two passages together copies neither.  So the code of a nested construct takes time in
proportion to its length, however deep the nesting is.
-/

namespace JackToolchain.Vm

/-- Code while it is put together. -/
inductive Passage where
  | block (code : List Instruction)
  | join (front behind : Passage)

namespace Passage

instance : Append Passage := ⟨join⟩

/-- The instructions of a passage with further instructions behind them. -/
def onto : Passage → List Instruction → List Instruction
  | block code, behind => code ++ behind
  | join front back, behind => front.onto (back.onto behind)

/-- The instructions of a passage. -/
def code (passage : Passage) : List Instruction := passage.onto []

/-- What stands behind a passage does not change it. -/
theorem onto_eq (passage : Passage) (behind : List Instruction) :
    passage.onto behind = passage.code ++ behind := by
  induction passage generalizing behind with
  | block code => simp [Passage.code, onto]
  | join front back ihFront ihBack =>
    rw [Passage.code, onto, onto, ihBack behind, ihFront, ihBack [], ihFront]
    simp

@[simp] theorem code_block (code : List Instruction) : (block code).code = code := by
  simp [Passage.code, onto]

@[simp] theorem code_append (front back : Passage) :
    (front ++ back).code = front.code ++ back.code := by
  change (join front back).onto [] = _
  rw [onto, onto_eq front]
  rfl

end Passage

end JackToolchain.Vm

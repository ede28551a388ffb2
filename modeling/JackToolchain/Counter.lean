/-!
# Counters

Variables, and the arguments of a call, are counted in sixteen bits.

* `counted` — what such a counter shows; full, it begins again at zero.

Nothing is refused when a counter begins again, so two variables may then share a cell and a call may
forget arguments.
-/

namespace JackToolchain

/-- The largest number that a counter shows. -/
def largestCount : Nat := 65535

/-- What a counter shows after a number of steps from zero on. -/
def counted (steps : Nat) : Nat := steps % (largestCount + 1)

theorem counted_le (steps : Nat) : counted steps ≤ largestCount :=
  Nat.le_of_lt_succ (Nat.mod_lt steps (Nat.succ_pos largestCount))

theorem counted_le_self (steps : Nat) : counted steps ≤ steps := Nat.mod_le steps (largestCount + 1)

/-- As long as a counter is not full, it shows the number of steps. -/
theorem counted_of_le {steps : Nat} (few : steps ≤ largestCount) : counted steps = steps :=
  Nat.mod_eq_of_lt (Nat.lt_succ_of_le few)

@[simp] theorem counted_zero : counted 0 = 0 := rfl

/-- What a counter shows is all that matters to further steps. -/
@[simp] theorem counted_counted_add (steps more : Nat) :
    counted (counted steps + more) = counted (steps + more) :=
  Nat.mod_add_mod steps (largestCount + 1) more

@[simp] theorem counted_add_counted (steps more : Nat) :
    counted (steps + counted more) = counted (steps + more) :=
  Nat.add_mod_mod steps more (largestCount + 1)

@[simp] theorem counted_counted (steps : Nat) : counted (counted steps) = counted steps :=
  counted_of_le (counted_le steps)

end JackToolchain

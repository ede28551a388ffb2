import JackToolchain.Symbol.Table

/-!
# Declarations

What a declaration does to a symbol table, seen through its observations.

## Main Statements

* `Table.count_define`, `Table.contains_define`, `Table.clear_define` — counting, declared names and
  forgetting the subroutine after a declaration.
-/

namespace JackToolchain.Symbol.Table

variable (table : Table) (name type : String) (kind : Kind)

theorem count_le : table.count kind ≤ largestCount := Counts.get_le _ kind

@[simp] theorem counted_count : counted (table.count kind) = table.count kind :=
  counted_of_le (table.count_le kind)

/-- A declaration adds one to the count of its kind. -/
@[simp] theorem count_define (other : Kind) :
    (table.define name type kind).count other =
      counted (table.count other + if other = kind then 1 else 0) := by
  have same := (table.counted_count other).symm
  cases kind <;> cases other <;> first | exact same | exact Scope.count_define _ _ _ _ _

@[simp] theorem count_empty : ({} : Table).count kind = 0 := by
  cases kind <;> rfl

/-- A table knows the declared name and what it knew before. -/
@[simp] theorem contains_define (other : String) :
    (table.define name type kind).contains other = true ↔
      other = name ∨ table.contains other = true := by
  by_cases same : name = other
  · subst same
    cases ofClass : kind.isOfClass with
    | false => simp [contains, lookup?_define, ofClass]
    | true =>
        cases hidden : table.ofSubroutine.get? name <;>
          simp [contains, lookup?_define, ofClass, hidden]
  · rw [contains, lookup?_define_of_ne table type kind same, contains]
    exact ⟨.inr, fun known => known.resolve_left fun equal => same equal.symm⟩

@[simp] theorem contains_empty : ({} : Table).contains name = false := rfl

/-- What is declared in a subroutine is forgotten with it. -/
theorem clear_define (inside : kind.isOfClass = false) :
    (table.define name type kind).clear = table.clear := by
  simp [define, clear, inside]

@[simp] theorem clear_clear : table.clear.clear = table.clear := rfl

@[simp] theorem ofSubroutine_clear : table.clear.ofSubroutine = {} := rfl

/-- Forgetting the subroutine leaves the class alone. -/
theorem count_clear_of_class (ofClass : kind.isOfClass = true) :
    table.clear.count kind = table.count kind := by
  simp [count, scopeOf, ofClass, clear]

@[simp] theorem count_argument_clear : table.clear.count .argument = 0 := rfl

@[simp] theorem count_var_clear : table.clear.count .var = 0 := rfl

end JackToolchain.Symbol.Table

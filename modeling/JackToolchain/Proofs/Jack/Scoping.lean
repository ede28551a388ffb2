import JackToolchain.Proofs.Jack.WrittenClass
import JackToolchain.Proofs.Symbol.Declarations

/-!
# Scoping

What the declarations of a class and of its subroutines make of the symbol table.

## Main Statements

* `Subroutine.contains_table`, `Class.contains_table` — a name is known where it is declared: in the
  subroutine or in the class.  In a method, `this` is known besides.
* `Subroutine.count_table`, `Class.count_table` — the local variables and the fields are counted.
* `Subroutine.clear_table` — nothing of a subroutine is left for the next one.
* `Class.IsCounted.readsOn` — where no counter is beyond its bits, all declarations are read.
-/

namespace JackToolchain.Jack.Written

open JackToolchain.Symbol (Kind Table)

/-! ## Lists of declarations -/

section Lists

variable (kind other : Kind) (type name : String) (names : List String) (table : Table)

theorem count_declared : (declared kind type names table).count other =
    counted (table.count other + if other = kind then names.length else 0) := by
  unfold declared
  induction names generalizing table with
  | nil => simp
  | cons first rest ih =>
      rw [List.foldl_cons, ih, Table.count_define, counted_counted_add, Nat.add_assoc]
      split
      · rw [List.length_cons, Nat.add_comm 1]
      · rfl

theorem contains_declared : (declared kind type names table).contains name = true ↔
    name ∈ names ∨ table.contains name = true := by
  unfold declared
  induction names generalizing table with
  | nil => simp
  | cons first rest ih =>
      rw [List.foldl_cons, ih, Table.contains_define, List.mem_cons, or_left_comm, or_assoc]

theorem clear_declared (inside : kind.isOfClass = false) :
    (declared kind type names table).clear = table.clear := by
  unfold declared
  induction names generalizing table with
  | nil => rfl
  | cons first rest ih => rw [List.foldl_cons, ih, Table.clear_define _ _ _ _ inside]

variable (declarations : List Variables) (parameters : List Parameter)
  (ofClass : List ClassVariables)

theorem count_locals : (declarations.foldl (Variables.declare kind) table).count other =
    counted (table.count other +
      if other = kind then (declarations.flatMap (·.names)).length else 0) := by
  induction declarations generalizing table with
  | nil => simp
  | cons first rest ih =>
      rw [List.foldl_cons, ih, Variables.declare, count_declared, List.flatMap_cons,
        counted_counted_add, Nat.add_assoc]
      split
      · rw [List.length_append]
      · rfl

theorem contains_locals :
    (declarations.foldl (Variables.declare kind) table).contains name = true ↔
      name ∈ declarations.flatMap (·.names) ∨ table.contains name = true := by
  induction declarations generalizing table with
  | nil => simp
  | cons first rest ih =>
      rw [List.foldl_cons, ih, Variables.declare, contains_declared, List.flatMap_cons,
        List.mem_append, or_left_comm, or_assoc]

theorem clear_locals (inside : kind.isOfClass = false) :
    (declarations.foldl (Variables.declare kind) table).clear = table.clear := by
  induction declarations generalizing table with
  | nil => rfl
  | cons first rest ih => rw [List.foldl_cons, ih, Variables.declare, clear_declared _ _ _ _ inside]

theorem count_parameters : (parameters.foldl Parameter.declare table).count other =
    counted (table.count other + if other = .argument then parameters.length else 0) := by
  induction parameters generalizing table with
  | nil => simp
  | cons first rest ih =>
      rw [List.foldl_cons, ih, Parameter.declare, Table.count_define, counted_counted_add,
        Nat.add_assoc]
      split
      · rw [List.length_cons, Nat.add_comm 1]
      · rfl

theorem contains_parameters : (parameters.foldl Parameter.declare table).contains name = true ↔
    name ∈ parameters.map (·.name) ∨ table.contains name = true := by
  induction parameters generalizing table with
  | nil => simp
  | cons first rest ih =>
      rw [List.foldl_cons, ih, Parameter.declare, Table.contains_define, List.map_cons,
        List.mem_cons, or_left_comm, or_assoc]

theorem clear_parameters : (parameters.foldl Parameter.declare table).clear = table.clear := by
  induction parameters generalizing table with
  | nil => rfl
  | cons first rest ih => rw [List.foldl_cons, ih, Parameter.declare, Table.clear_define _ _ _ _ rfl]

theorem count_classVariables : (ofClass.foldl ClassVariables.declare table).count other =
    counted (table.count other +
      ((ofClass.filter fun d => d.kind = other).flatMap (·.group.names)).length) := by
  induction ofClass generalizing table with
  | nil => simp
  | cons first rest ih =>
      rw [List.foldl_cons, ih, ClassVariables.declare, Variables.declare, count_declared,
        counted_counted_add, Nat.add_assoc]
      by_cases same : first.kind = other
      · rw [if_pos same.symm, List.filter_cons_of_pos (by simpa using same), List.flatMap_cons,
          List.length_append]
      · rw [if_neg (Ne.symm same), List.filter_cons_of_neg (by simpa using same), Nat.zero_add]

theorem contains_classVariables : (ofClass.foldl ClassVariables.declare table).contains name = true ↔
    name ∈ ofClass.flatMap (·.group.names) ∨ table.contains name = true := by
  induction ofClass generalizing table with
  | nil => simp
  | cons first rest ih =>
      rw [List.foldl_cons, ih, ClassVariables.declare, Variables.declare, contains_declared,
        List.flatMap_cons, List.mem_append, or_left_comm, or_assoc]

end Lists

/-! ## Subroutines -/

namespace Subroutine

variable (subroutine : Subroutine) (className : String) (ofClass : Table)

/-- Nothing of a subroutine is left for the next one… -/
@[simp] theorem clear_table : (subroutine.table className ofClass).clear = ofClass.clear := by
  rw [table, clear_locals _ _ _ rfl, clear_parameters, outset]
  split
  · rw [Table.clear_define _ _ _ _ rfl, Table.clear_clear]
  · rw [Table.clear_clear]

/-- …and nothing of the one before it is seen. -/
theorem table_congr {other : Table} (same : ofClass.clear = other.clear) :
    subroutine.table className ofClass = subroutine.table className other := by
  rw [table, table, outset, outset, same]

/-- **Scoping.**  In a subroutine its parameters and local variables are known, and the statics and
fields of the class; in a method, `this` besides. -/
theorem contains_table (name : String) :
    (subroutine.table className ofClass).contains name = true ↔
      name ∈ subroutine.declaredNames ∨ ofClass.clear.contains name = true ∨
        (subroutine.kind = .method ∧ name = Keyword.this.text) := by
  have begun : (outset subroutine.kind className ofClass).contains name = true ↔
      ofClass.clear.contains name = true ∨
        (subroutine.kind = .method ∧ name = Keyword.this.text) := by
    unfold outset
    split
    · rename_i isMethod
      rw [Table.contains_define, or_comm]
      simp only [isMethod, true_and]
    · rename_i other
      simp only [other, false_and, or_false]
  rw [table, contains_locals, contains_parameters, begun, declaredNames, List.mem_append,
    or_left_comm, or_assoc]

/-- In front of the parameters only the current object of a method is an argument. -/
theorem count_argument_outset (kind : SubroutineKind) :
    (outset kind className ofClass).count .argument = if kind = .method then 1 else 0 := by
  unfold outset
  split
  · rw [Table.count_define, Table.count_argument_clear]
    rfl
  · rfl

theorem count_var_outset (kind : SubroutineKind) :
    (outset kind className ofClass).count .var = 0 := by
  unfold outset
  split <;> simp

/-- The arguments are counted: the parameters, and the current object of a method… -/
theorem count_argument_table :
    (subroutine.table className ofClass).count .argument = counted subroutine.argumentCount := by
  have noLocal : (Kind.argument : Kind) ≠ .var := by decide
  rw [table, count_locals, count_parameters, count_argument_outset, argumentCount, if_pos rfl,
    if_neg noLocal, Nat.add_zero, counted_counted, Nat.add_comm]

/-- …and so are the local variables. -/
theorem count_table :
    (subroutine.table className ofClass).count .var = counted subroutine.localCount := by
  have noParameter : (Kind.var : Kind) ≠ .argument := by decide
  rw [table, count_locals, count_parameters, count_var_outset, localCount, if_pos rfl,
    if_neg noParameter, counted_zero, Nat.zero_add]

/-- Every declaration has a name, so as long as the counter of its names is not full, it is not counted as
one of none. -/
theorem readsOn_of_few {subroutine : Subroutine} (few : subroutine.localCount ≤ largestCount) :
    subroutine.ReadsOn := by
  intro group member
  have inside : group.names.length ≤ subroutine.localCount := by
    obtain ⟨front, behind, split⟩ := List.append_of_mem (List.dropLast_subset _ member)
    simp only [localCount, split, List.flatMap_append, List.flatMap_cons, List.length_append]
    omega
  rw [counted_of_le (Nat.le_trans inside few)]
  exact Nat.succ_ne_zero _

/-- A subroutine adds nothing to the class. -/
theorem count_table_of_class {kind : Kind} (inClass : kind.isOfClass = true) :
    (subroutine.table className ofClass).count kind = ofClass.count kind := by
  rw [← Table.count_clear_of_class _ _ inClass, clear_table, Table.count_clear_of_class _ _ inClass]

end Subroutine

/-- The subroutines of a class do not see each other's declarations. -/
theorem resolvedSubroutines_congr (className : String) {ofClass other : Table}
    (same : ofClass.clear = other.clear) (first : Nat) (subroutines : List Subroutine) :
    resolvedSubroutines className ofClass first subroutines =
      resolvedSubroutines className other first subroutines := by
  induction subroutines generalizing first with
  | nil => rfl
  | cons subroutine rest ih =>
      rw [resolvedSubroutines, resolvedSubroutines, ih, Subroutine.resolved, Subroutine.resolved,
        subroutine.table_congr className ofClass same]

/-! ## Classes -/

namespace Class

variable (cls : Class)

/-- Only statics and fields are declared in a class itself. -/
@[simp] theorem clear_table : cls.table.clear = cls.table := by
  have ofSubroutine (declarations : List ClassVariables) (table : Table)
      (empty : table.ofSubroutine = {}) :
      (declarations.foldl ClassVariables.declare table).ofSubroutine = {} := by
    induction declarations generalizing table with
    | nil => exact empty
    | cons first rest ih =>
        refine ih _ ?_
        have inClass : first.kind.isOfClass = true := by
          unfold ClassVariables.kind
          split <;> rfl
        unfold ClassVariables.declare Variables.declare declared
        induction first.group.names generalizing table with
        | nil => exact empty
        | cons name names again =>
            refine again _ ?_
            show (table.define name first.group.type.text first.kind).ofSubroutine = {}
            rwa [Table.define, if_pos inClass]
  unfold Table.clear
  rw [← ofSubroutine cls.shared {} rfl]
  rfl

/-- The statics and fields are known in a class. -/
theorem contains_table (name : String) :
    cls.table.contains name = true ↔ name ∈ cls.declaredNames := by
  rw [table, contains_classVariables, Table.contains_empty]
  simp [declaredNames]

theorem fieldCount_eq :
    ((cls.shared.filter fun d => d.kind = .field).flatMap (·.group.names)).length = cls.fieldCount := by
  have isField : (fun d : ClassVariables => decide (d.kind = .field)) = (·.areFields) := by
    funext d
    unfold ClassVariables.kind
    cases d.areFields <;> rfl
  rw [isField, fieldCount]

theorem IsCounted.readsOn {cls : Class} (isCounted : cls.IsCounted) : cls.ReadsOn := fun s member =>
  Subroutine.readsOn_of_few (isCounted.locals s member)

/-- The fields are counted. -/
theorem count_table : cls.table.count .field = counted cls.fieldCount := by
  rw [table, count_classVariables, Table.count_empty, fieldCount_eq, Nat.zero_add]

end Class

end JackToolchain.Jack.Written

import JackToolchain.Counter
import JackToolchain.Vm.Instruction

/-!
# Scopes

Declarations of one scope.

* `Kind` — what a variable is declared as, which decides the segment it lives in.
* `Entry` — one declaration: name, type, kind, and its index among those of its kind.
* `Counts` — one counter of sixteen bits per kind.
* `Scope` — the declarations of a scope, the newest first.

A name may be declared again: the newest declaration is the one that is found, and the counters
never go back, so an index is given out once as long as no counter is full.
-/

namespace JackToolchain.Symbol

/-- What a variable is declared as. -/
inductive Kind where
  | static_ | field | argument | var
  deriving DecidableEq

namespace Kind

/-- Every kind once. -/
def all : List Kind := [static_, field, argument, var]

/-- The name of a kind. -/
def text : Kind → String
  | static_ => "static"
  | field => "field"
  | argument => "argument"
  | var => "var"

/-- The segment that holds the variables of a kind. -/
def segment : Kind → Vm.Segment
  | static_ => .static_
  | field => .this
  | argument => .argument
  | var => .local_

end Kind

/-- One declaration. -/
structure Entry where
  name : String
  type : String
  kind : Kind
  /-- What the counter of the kind showed in front of it. -/
  index : Nat
  deriving DecidableEq

/-- One counter per kind. -/
structure Counts where
  statics : UInt16 := 0
  fields : UInt16 := 0
  arguments : UInt16 := 0
  vars : UInt16 := 0
  deriving DecidableEq

namespace Counts

/-- What the counter of a kind shows. -/
def get (counts : Counts) : Kind → Nat
  | .static_ => counts.statics.toNat
  | .field => counts.fields.toNat
  | .argument => counts.arguments.toNat
  | .var => counts.vars.toNat

/-- One more of a kind. -/
def next (counts : Counts) : Kind → Counts
  | .static_ => { counts with statics := counts.statics + 1 }
  | .field => { counts with fields := counts.fields + 1 }
  | .argument => { counts with arguments := counts.arguments + 1 }
  | .var => { counts with vars := counts.vars + 1 }

theorem get_le (counts : Counts) (k : Kind) : counts.get k ≤ largestCount := by
  cases k <;> exact Nat.le_of_lt_succ (UInt16.toNat_lt _)

/-- Counting one kind leaves the others alone. -/
@[simp] theorem get_next (counts : Counts) (k l : Kind) :
    (counts.next k).get l = counted (counts.get l + if l = k then 1 else 0) := by
  have same := (counted_of_le (counts.get_le l)).symm
  cases k <;> cases l <;> first | exact same | exact UInt16.toNat_add _ 1

@[simp] theorem get_empty (k : Kind) : ({} : Counts).get k = 0 := by cases k <;> rfl

end Counts

/-- The declarations of a scope, the newest first, and how many of each kind there have been. -/
structure Scope where
  entries : List Entry := []
  counts : Counts := {}
  deriving DecidableEq

namespace Scope

/-- The declaration that `define` adds. -/
def entryFor (scope : Scope) (name type : String) (kind : Kind) : Entry :=
  ⟨name, type, kind, scope.counts.get kind⟩

/-- Declares a variable. -/
def define (scope : Scope) (name type : String) (kind : Kind) : Scope where
  entries := scope.entryFor name type kind :: scope.entries
  counts := scope.counts.next kind

/-- The newest declaration of a name. -/
def get? (scope : Scope) (name : String) : Option Entry :=
  scope.entries.find? (·.name == name)

/-- What the counter of a kind shows. -/
def count (scope : Scope) (kind : Kind) : Nat := scope.counts.get kind

/-- Whether nothing was declared. -/
def isEmpty (scope : Scope) : Bool := scope.entries.isEmpty

@[simp] theorem get?_empty (name : String) : ({} : Scope).get? name = none := rfl

/-- A declaration is found under its own name and hides no other. -/
theorem get?_define (scope : Scope) (name type : String) (kind : Kind) (other : String) :
    (scope.define name type kind).get? other =
      if name = other then some (scope.entryFor name type kind) else scope.get? other := by
  by_cases same : name = other
  · simp [define, get?, entryFor, same]
  · simp [define, get?, entryFor, same]

@[simp] theorem count_define (scope : Scope) (name type : String) (kind other : Kind) :
    (scope.define name type kind).count other =
      counted (scope.count other + if other = kind then 1 else 0) := by
  simp [define, count]

end Scope

end JackToolchain.Symbol

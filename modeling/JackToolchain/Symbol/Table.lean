import JackToolchain.Error
import JackToolchain.Symbol.Scope

/-!
# The symbol table

Two nested scopes: statics and fields belong to the class, arguments and locals to the subroutine.

* `Kind.isOfClass` — which scope a kind belongs to.
* `Table.define` — declares a variable in the scope of its kind.
* `Table.lookup?` — the declaration a name refers to: the subroutine's before the class's.
* `Table.resolve` — the same, with an undeclared name as an error.
* `Table.clear` — starts a subroutine.
-/

namespace JackToolchain.Symbol

/-- Whether variables of a kind belong to the class rather than to the subroutine. -/
def Kind.isOfClass : Kind → Bool
  | .static_ | .field => true
  | .argument | .var => false

/-- The declarations of a class and of the subroutine being read. -/
structure Table where
  ofClass : Scope := {}
  ofSubroutine : Scope := {}
  deriving DecidableEq

namespace Table

/-- The scope to which a kind belongs. -/
def scopeOf (table : Table) (kind : Kind) : Scope :=
  if kind.isOfClass then table.ofClass else table.ofSubroutine

/-- What the counter of a kind shows. -/
def count (table : Table) (kind : Kind) : Nat := (table.scopeOf kind).count kind

/-- Declares a variable in the scope of its kind. -/
def define (table : Table) (name type : String) (kind : Kind) : Table :=
  if kind.isOfClass then { table with ofClass := table.ofClass.define name type kind }
  else { table with ofSubroutine := table.ofSubroutine.define name type kind }

/-- The declaration a name refers to: that of the subroutine hides that of the class. -/
def lookup? (table : Table) (name : String) : Option Entry :=
  (table.ofSubroutine.get? name).or (table.ofClass.get? name)

/-- The declaration a name refers to, or the error that there is none. -/
def resolve (table : Table) (name : String) : Except Error Entry :=
  match table.lookup? name with
  | some entry => .ok entry
  | none => .error (.undefined name)

/-- Whether a name is declared. -/
def contains (table : Table) (name : String) : Bool := (table.lookup? name).isSome

/-- Forgets the subroutine. -/
def clear (table : Table) : Table := { table with ofSubroutine := {} }

@[simp] theorem lookup?_empty (name : String) : ({} : Table).lookup? name = none := rfl

/-- Once the subroutine is forgotten, names refer to the class. -/
@[simp] theorem lookup?_clear (table : Table) (name : String) :
    table.clear.lookup? name = table.ofClass.get? name := rfl

/-- A declaration is found at once, unless it is one of the class and the subroutine hides it. -/
theorem lookup?_define (table : Table) (name type : String) (kind : Kind) :
    (table.define name type kind).lookup? name =
      if kind.isOfClass then
        (table.ofSubroutine.get? name).or (some (table.ofClass.entryFor name type kind))
      else some (table.ofSubroutine.entryFor name type kind) := by
  cases ofClass : kind.isOfClass <;> simp [define, lookup?, ofClass, Scope.get?_define]

/-- Other names keep their declaration. -/
theorem lookup?_define_of_ne (table : Table) {name other : String} (type : String) (kind : Kind)
    (distinct : name ≠ other) :
    (table.define name type kind).lookup? other = table.lookup? other := by
  cases ofClass : kind.isOfClass <;>
    simp [define, lookup?, ofClass, Scope.get?_define, distinct]

end Table

end JackToolchain.Symbol

import JackToolchain.Jack.Statement

/-!
# Classes and subroutines

* `SubroutineKind` — constructor, function or method.
* `Subroutine` — a subroutine as read, with the count of its locals.
* `Class` — a class as read, with the count of its fields.
-/

namespace JackToolchain.Jack

/-- The three kinds of subroutine. -/
inductive SubroutineKind where
  /-- Makes a new object. -/
  | constructor_
  /-- Has no current object. -/
  | function
  /-- Receives the current object in front of its arguments. -/
  | method
  deriving DecidableEq

/-- A subroutine. -/
structure Subroutine where
  kind : SubroutineKind
  name : String
  /-- Whether it returns no value. -/
  isVoid : Bool
  /-- What its local variables are counted as. -/
  locals : Nat
  body : List Statement

/-- A class. -/
structure Class where
  name : String
  /-- What the fields of an object are counted as. -/
  fields : Nat
  subroutines : List Subroutine

end JackToolchain.Jack

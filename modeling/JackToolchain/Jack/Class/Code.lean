import JackToolchain.Jack.Class
import JackToolchain.Jack.Statement.Code

/-!
# Code of classes

* `Subroutine.prologue` — how a subroutine comes by its current object.
* `Subroutine.epilogue` — what stands behind the body: a constructor returns the new object, a void
  subroutine returns zero, since every call takes one result.
* `Class.code` — the code of all subroutines in order.
-/

namespace JackToolchain.Jack

open Vm

/-- The name under which a subroutine of a class is called. -/
def qualifiedName (className name : String) : String := s!"{className}.{name}"

/-- Sets the current object. -/
def setSelf : Instruction := Place.self.pop

/-- A constructor allocates the object, a method receives it as its first argument. -/
def Subroutine.prologue (library : Library) (fields : Nat) (subroutine : Subroutine) :
    List Instruction :=
  match subroutine.kind with
  | .constructor_ => [.push .constant fields, .call library.allocator 1, setSelf]
  | .method => [.push .argument 0, setSelf]
  | .function => []

/-- What is returned at the end of the body. -/
def Subroutine.epilogue (subroutine : Subroutine) : List Instruction :=
  match subroutine.kind with
  | .constructor_ => [Place.self.push, .return_]
  | .method | .function => if subroutine.isVoid then [.push .constant 0, .return_] else []

/-- The code of a subroutine. -/
def Subroutine.code (library : Library) (className : String) (fields : Nat)
    (subroutine : Subroutine) : List Instruction :=
  .function (qualifiedName className subroutine.name) subroutine.locals ::
    subroutine.prologue library fields ++ statementsCode library subroutine.body ++
    subroutine.epilogue

/-- The code of a class. -/
def Class.code (library : Library) (cls : Class) : List Instruction :=
  cls.subroutines.flatMap (·.code library cls.name cls.fields)

end JackToolchain.Jack

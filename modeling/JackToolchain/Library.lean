/-!
# Library routines

The names of the routines that generated code relies on.  Each has a standard name and may be
replaced by a setting.
-/

namespace JackToolchain

/-- The routines that generated code calls. -/
structure Library where
  /-- Allocates the fields of a new object. -/
  allocator : String := "Memory.alloc"
  multiply : String := "Math.multiply"
  divide : String := "Math.divide"
  /-- Makes an empty string with room for a number of characters. -/
  newString : String := "String.new"
  /-- Appends one character to a string. -/
  appendCharacter : String := "String.appendChar"
  /-- The function with which a program begins. -/
  entry : String := "Sys.init"
  deriving DecidableEq

end JackToolchain

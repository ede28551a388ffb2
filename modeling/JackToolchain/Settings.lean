import JackToolchain.Library
import JackToolchain.Settings.Value
import JackToolchain.Token

/-!
# Settings

* `Settings` — what a build can be told.
* `Settings.Field` — a setting by name, and how a value changes it.
* `Settings.read` — the settings that a text writes.

A text that writes nothing but an empty record gives the standard settings.  The settings, and among
them the names of library routines, can be written as a record by name or as a list by position.
Unknown names, repeated names and values of the wrong form are refused.
-/

namespace JackToolchain

/-- What a build can be told. -/
structure Settings where
  /-- The first cell of the stack. -/
  stackBase : Nat := 256
  /-- Whether the program begins by setting up the stack; if not told, programs made from a directory
  do. -/
  bootstrap : Option Bool := none
  /-- Whether the assembly echoes every instruction as a comment. -/
  annotate : Bool := true
  library : Library := {}
  deriving DecidableEq

/-- Why settings are refused. -/
inductive SettingsError where
  /-- The text does not write settings. -/
  | malformed
  /-- The stack would begin at the register that points to it. -/
  | stackBaseZero
  /-- No constant can hold the first cell of the stack. -/
  | stackBaseTooLarge (base : Nat)
  deriving DecidableEq

/-- The wording of a refusal. -/
def SettingsError.message : SettingsError → String
  | malformed => "Failed to parse config JSON"
  | stackBaseZero => "`stack_base` must be above the pointer registers"
  | stackBaseTooLarge base => s!"`stack_base` {base} does not fit an address constant"

namespace Settings

/-! ## Fields -/

/-- A part of `σ` that can be set. -/
structure Field (σ : Type) where
  name : String
  /-- The new whole, unless the value has the wrong form. -/
  set? : Value → σ → Option σ

/-- Sets fields by position.  Those without a value keep theirs; a value without a field is one too
many. -/
def setAll? {σ : Type} : List (Field σ) → List Value → σ → Option σ
  | _, [], whole => some whole
  | [], _ :: _, _ => none
  | field :: fields, value :: values, whole =>
    (field.set? value whole).bind (setAll? fields values)

/-- Sets fields by name. -/
def setNamed? {σ : Type} (fields : List (Field σ)) : List (String × Value) → σ → Option σ
  | [], whole => some whole
  | (name, value) :: rest, whole => do
    let field ← fields.find? (·.name == name)
    setNamed? fields rest (← field.set? value whole)

/-- Sets fields from a list or a record, which must not repeat a name. -/
def setFields? {σ : Type} (fields : List (Field σ)) (value : Value) (whole : σ) : Option σ :=
  match value with
  | .list values => setAll? fields values whole
  | .record named =>
    if (named.map (·.1)).Nodup then setNamed? fields named whole else none
  | _ => none

/-- The field of a text. -/
def textField {σ : Type} (name : String) (set : σ → String → σ) : Field σ where
  name := name
  set?
    | .text content, whole => some (set whole content)
    | _, _ => none

/-- The names of the library routines. -/
def libraryFields : List (Field Library) :=
  [textField "allocator" fun library name => { library with allocator := name },
    textField "multiply" fun library name => { library with multiply := name },
    textField "divide" fun library name => { library with divide := name },
    textField "string_new" fun library name => { library with newString := name },
    textField "string_append" fun library name => { library with appendCharacter := name },
    textField "entry" fun library name => { library with entry := name }]

/-- The largest number that can be written for the first cell of the stack. -/
def largestStackBase : Nat := 65535

/-- The first cell of the stack. -/
def stackBaseField : Field Settings where
  name := "stack_base"
  set?
    | .number value, settings =>
      if value ≤ largestStackBase then some { settings with stackBase := value } else none
    | _, _ => none

/-- Whether to set up the stack; `null` leaves it open. -/
def bootstrapField : Field Settings where
  name := "bootstrap"
  set?
    | .null, settings => some { settings with bootstrap := none }
    | .flag value, settings => some { settings with bootstrap := some value }
    | _, _ => none

/-- Whether to echo instructions. -/
def annotateField : Field Settings where
  name := "annotate"
  set?
    | .flag value, settings => some { settings with annotate := value }
    | _, _ => none

/-- The names of the library routines, which are fields themselves. -/
def runtimeField : Field Settings where
  name := "runtime"
  set? value settings :=
    (setFields? libraryFields value {}).map fun library => { settings with library }

/-- All settings. -/
def fields : List (Field Settings) := [stackBaseField, bootstrapField, annotateField, runtimeField]

/-! ## Reading -/

/-- Settings that a machine can work with: the stack begins above the register that points to it, and
its address is a constant. -/
def check (settings : Settings) : Except SettingsError Settings :=
  if settings.stackBase = 0 then .error .stackBaseZero
  else if settings.stackBase ≤ largestConstant then .ok settings
  else .error (.stackBaseTooLarge settings.stackBase)

/-- The settings that a text writes. -/
def read (content : String) : Except SettingsError Settings :=
  match (Value.ofText? content).bind (setFields? fields · {}) with
  | some settings => settings.check
  | none => .error .malformed

/-- The first cell of the stack is within bounds in all settings that are read. -/
theorem stackBase_of_read {content : String} {settings : Settings}
    (h : read content = .ok settings) :
    0 < settings.stackBase ∧ settings.stackBase ≤ largestConstant := by
  unfold read at h
  split at h
  · unfold check at h
    split at h
    · simp at h
    · split at h
      · simp only [Except.ok.injEq] at h
        subst h
        omega
      · simp at h
  · simp at h

end Settings

end JackToolchain

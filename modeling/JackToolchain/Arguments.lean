import JackToolchain.Program

/-!
# Arguments

The words behind the name of the program on a command line.

* `Arguments` — what a build is asked to do.
* `Request` — a build, or a text about the program.
* `UsageError` — why the words are no request.
* `Request.ofWords` — reads the words from left to right.

An option takes its value from behind an equals sign, from the rest of its word, or from the next
word.  A value from the next word, and the input, are looked at only when something that is known
follows: until then a word that is not known is the first fault.
-/

namespace JackToolchain

open Disk (Path)

/-- What a build is asked to do. -/
structure Arguments where
  input : Path
  /-- Where to write; by default next to the sources. -/
  output : Option Path := none
  emit : Emit := .asm
  /-- The settings file; by default the one next to the sources. -/
  config : Option Path := none
  /-- Whether to report every step. -/
  verbose : Bool := false

/-- What the words ask for. -/
inductive Request where
  | build (arguments : Arguments)
  /-- How the program is used. -/
  | help
  /-- Which version of the program this is. -/
  | version

/-- Why words are no request. -/
inductive UsageError where
  | missingInput
  /-- An option that does not exist, or a second input. -/
  | unknownArgument (word : String)
  /-- An option without its value, or with one it does not take. -/
  | invalidValue (parameter : String)
  /-- An option that is given twice. -/
  | repeated (option : String)
  /-- A value for a switch. -/
  | unwantedValue (switch : String)
  deriving DecidableEq

/-- The wording of a usage error. -/
def UsageError.message : UsageError → String
  | missingInput => "the input is missing"
  | unknownArgument word => s!"unexpected argument `{word}`"
  | invalidValue parameter => s!"`{parameter}` has no value it can take"
  | repeated option => s!"`{option}` is given twice"
  | unwantedValue switch => s!"`{switch}` takes no value"

namespace Request

/-! ## Options -/

/-- What takes a value. -/
inductive Parameter where
  | input | output | emit | config
  deriving DecidableEq

/-- What takes no value. -/
inductive Switch where
  | verbose | help | version
  deriving DecidableEq

/-- What a word that begins with a dash names. -/
inductive Named where
  | parameter (parameter : Parameter)
  | switch (switch : Switch)

/-- The name of a parameter. -/
def Parameter.text : Parameter → String
  | input => "INPUT"
  | output => "--output"
  | emit => "--emit"
  | config => "--config"

/-- The name of a switch. -/
def Switch.text : Switch → String
  | verbose => "--verbose"
  | help => "--help"
  | version => "--version"

/-- What a word behind two dashes names.  Names are not shortened. -/
def namedByWord? : String → Option Named
  | "output" => some (.parameter .output)
  | "emit" => some (.parameter .emit)
  | "config" => some (.parameter .config)
  | "verbose" => some (.switch .verbose)
  | "help" => some (.switch .help)
  | "version" => some (.switch .version)
  | _ => none

/-- What a letter behind one dash names. -/
def namedByLetter? : Char → Option Named
  | 'o' => some (.parameter .output)
  | 'v' => some (.switch .verbose)
  | 'h' => some (.switch .help)
  | 'V' => some (.switch .version)
  | _ => none

/-! ## Reading -/

/-- What was read from the words so far. -/
structure Reading where
  input : Option Path := none
  output : Option Path := none
  emit : Option Emit := none
  config : Option Path := none
  verbose : Bool := false
  /-- The parameter that was read last, and its value if that was read, neither looked at yet. -/
  waiting : Option (Parameter × Option String) := none

/-- The answer to all words: a request or a fault. -/
abbrev Answer := Except UsageError Request

/-- Reading goes on from what was read, or stops with an answer. -/
abbrev Step := Except Answer Reading

/-- Stops with a fault. -/
def fault (error : UsageError) : Step := .error (.error error)

namespace Reading

/-- Whether a parameter has a value. -/
def isGiven (reading : Reading) : Parameter → Bool
  | .input => reading.input.isSome
  | .output => reading.output.isSome
  | .emit => reading.emit.isSome
  | .config => reading.config.isSome

/-- Gives a parameter its value.  A path must not be empty, a stage must exist. -/
def give (reading : Reading) (parameter : Parameter) (value : String) : Step :=
  if reading.isGiven parameter then fault (.repeated parameter.text)
  else match parameter with
    | .emit =>
      match Emit.ofText? value with
      | some emit => .ok { reading with emit := some emit }
      | none => fault (.invalidValue parameter.text)
    | .input => path fun path => { reading with input := some path }
    | .output => path fun path => { reading with output := some path }
    | .config => path fun path => { reading with config := some path }
where
  /-- A value that is a path. -/
  path (set : Path → Reading) : Step :=
    if value.isEmpty then fault (.invalidValue parameter.text) else .ok (set ⟨value⟩)

/-- Looks at what is waiting. -/
def settle (reading : Reading) : Step :=
  match reading.waiting with
  | none => .ok reading
  | some (parameter, none) => fault (.invalidValue parameter.text)
  | some (parameter, some value) => { reading with waiting := none }.give parameter value

/-- A parameter with its value in the same word. -/
def giveNow (reading : Reading) (parameter : Parameter) (value : String) : Step := do
  (← reading.settle).give parameter value

/-- A parameter whose value may be the next word. -/
def wait (reading : Reading) (parameter : Parameter) (value : Option String) : Step := do
  return { ← reading.settle with waiting := some (parameter, value) }

/-- A switch. -/
def turnOn (reading : Reading) (switch : Switch) : Step := do
  let reading ← reading.settle
  match switch with
  | .verbose =>
    if reading.verbose then fault (.repeated switch.text)
    else return { reading with verbose := true }
  | .help => .error (.ok .help)
  | .version => .error (.ok .version)

/-- The input, of which there is one. -/
def positional (reading : Reading) (word : String) : Step :=
  let taken := reading.input.isSome || reading.waiting.any (·.1 == .input)
  if taken then fault (.unknownArgument word) else reading.wait .input (some word)

/-- A word that is no option: the value for which an option waits, or else the input. -/
def plain (reading : Reading) (word : String) : Step :=
  match reading.waiting with
  | some (parameter, none) => .ok { reading with waiting := some (parameter, some word) }
  | _ => positional reading word

/-- The letters behind a dash.  The first that takes a value takes the rest of the word, without an
equals sign in front, or else the next word. -/
def letters (word : String) (reading : Reading) : List Char → Step
  | [] => .ok reading
  | c :: rest =>
    match namedByLetter? c with
    | none => fault (.unknownArgument word)
    | some (.switch switch) => do letters word (← reading.turnOn switch) rest
    | some (.parameter parameter) =>
      match rest with
      | [] => reading.wait parameter none
      | '=' :: value => reading.giveNow parameter (String.ofList value)
      | value => reading.giveNow parameter (String.ofList value)

/-- The name behind two dashes, with a value behind an equals sign if there is one. -/
def name (word : String) (reading : Reading) (cs : List Char) : Step :=
  let name := String.ofList (cs.takeWhile (· != '='))
  let value? : Option String := match cs.dropWhile (· != '=') with
    | [] => none
    | _ :: value => some (String.ofList value)
  match namedByWord? name, value? with
  | none, _ => fault (.unknownArgument word)
  | some (.switch switch), none => reading.turnOn switch
  | some (.switch switch), some _ => fault (.unwantedValue switch.text)
  | some (.parameter parameter), none => reading.wait parameter none
  | some (.parameter parameter), some value => reading.giveNow parameter value

/-- The arguments, when all words are read. -/
def finish (reading : Reading) : Answer :=
  match reading.settle with
  | .error answer => answer
  | .ok reading =>
    match reading.input with
    | none => .error .missingInput
    | some input =>
      .ok (.build
        { input
          output := reading.output
          emit := reading.emit.getD .asm
          config := reading.config
          verbose := reading.verbose })

/-- Words behind two lone dashes, none of which is an option. -/
def positionals (reading : Reading) : List String → Answer
  | [] => reading.finish
  | word :: rest =>
    match reading.positional word with
    | .ok reading => reading.positionals rest
    | .error answer => answer

/-- The answer to the words that are left. -/
def answer (reading : Reading) : List String → Answer
  | [] => reading.finish
  | word :: rest =>
    if word = "--" then reading.positionals rest
    else
      let step := match word.toList with
        | '-' :: '-' :: cs => name word reading cs
        | '-' :: c :: cs => letters word reading (c :: cs)
        | _ => reading.plain word
      match step with
      | .ok reading => reading.answer rest
      | .error answer => answer

end Reading

/-- Reads the words of a command line. -/
def ofWords (words : List String) : Answer := ({} : Reading).answer words

end Request

end JackToolchain

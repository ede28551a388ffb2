import JackToolchain.Proofs.Jack.ClassLimits
import JackToolchain.Proofs.Jack.EmittedCode

/-!
# Storage bounds

Every variable access in compiled code is inside its storage.

## Main Definitions

* `Storage` — how many cells of each segment a subroutine has.
* `Storage.Admits` — an instruction accesses only cells that there are.
* `IsWithinStorage` — code of a subroutine that keeps to its storage; a constructor allocates all fields.

## Main Statements

* `count_eq_size` — the symbol table of a subroutine counts the cells of its storage.
* `Emitted.admitted` — what is emitted for statements with declared names keeps to the storage.
* `accesses_within_storage` — so does the code of an accepted text.

## Design Notes

The sizes are read off the text, the indices come from the symbol table.  They meet in the counts of the
table: an index is below the count at the time of its declaration, and a count never goes down, also where a
name is declared twice.  That holds as long as no counter is beyond its bits.
-/

namespace JackToolchain.Jack

open Vm

/-! ## Storage -/

/-- How many cells the segments of a subroutine have. -/
structure Storage where
  locals : Nat
  arguments : Nat
  fields : Nat
  statics : Nat

/-- How many cells of a segment a subroutine has.  Besides its variables it has the two pointers, one
temporary cell, and the array element to which the second pointer refers. -/
def Storage.size (storage : Storage) : Segment → Nat
  | .local_ => storage.locals
  | .argument => storage.arguments
  | .this => storage.fields
  | .static_ => storage.statics
  | .pointer => 2
  | .temp | .that => 1
  | .constant => 0

/-- **Admitted instructions** access only cells that there are.  Constants are no cells, so they can be
pushed without a limit, and not popped. -/
def Storage.Admits (storage : Storage) : Instruction → Prop
  | .push .constant _ => True
  | .push segment index | .pop segment index => index < storage.size segment
  | _ => True

theorem Storage.admits_push {storage : Storage} {segment : Segment} {index : Nat}
    (small : index < storage.size segment) : storage.Admits (.push segment index) := by
  cases segment <;> first | exact small | trivial

theorem Storage.admits_pop {storage : Storage} {segment : Segment} {index : Nat}
    (small : index < storage.size segment) : storage.Admits (.pop segment index) := by
  cases segment <;> exact small

namespace Written

/-- How many statics are declared. -/
def Class.staticCount (cls : Class) : Nat :=
  ((cls.shared.filter (!·.areFields)).flatMap (·.group.names)).length

/-- The storage of a subroutine with a number of local variables.  A method has the current object as an
argument besides its parameters. -/
def Subroutine.storage (cls : Class) (subroutine : Subroutine) (locals : Nat) : Storage where
  locals := locals
  arguments := subroutine.parameters.length + if subroutine.kind = .method then 1 else 0
  fields := cls.fieldCount
  statics := cls.staticCount

/-- **Code within its storage**: behind the header of the subroutine, all cells that are accessed are those
of its storage, as many local variables as the header says.  A constructor begins by allocating all fields
of the class. -/
def IsWithinStorage (library : Library) (cls : Class) (subroutine : Subroutine)
    (code : List Instruction) : Prop :=
  ∃ locals body, code = .function (qualifiedName cls.name subroutine.name) locals :: body ∧
    (∀ i ∈ body, i.isFunction = false) ∧ (∀ i ∈ body, (subroutine.storage cls locals).Admits i) ∧
    (subroutine.kind = .constructor_ → ∃ rest,
      body = .push .constant cls.fieldCount :: .call library.allocator 1 :: .pop .pointer 0 :: rest)

/-! ## Counts -/

/-- The statics are counted. -/
theorem Class.staticCount_eq (cls : Class) :
    ((cls.shared.filter fun d => d.kind = .static_).flatMap (·.group.names)).length =
      cls.staticCount := by
  have isStatic : (fun d : ClassVariables => decide (d.kind = .static_)) = (!·.areFields) := by
    funext d
    unfold ClassVariables.kind
    cases d.areFields <;> rfl
  rw [isStatic, staticCount]

/-- **The symbol table** of a subroutine counts the cells of its storage. -/
theorem count_eq_size {cls : Class} (isCounted : cls.IsCounted) {subroutine : Subroutine}
    (member : subroutine ∈ cls.subroutines) (kind : Symbol.Kind) :
    (subroutine.table cls.name cls.table).count kind =
      (subroutine.storage cls subroutine.localCount).size kind.segment := by
  have ofClass (kind : Symbol.Kind) : cls.table.count kind =
      ((cls.shared.filter fun d => d.kind = kind).flatMap (·.group.names)).length := by
    rw [Class.table, count_classVariables, Symbol.Table.count_empty, Nat.zero_add,
      counted_of_le (isCounted.shared kind)]
  cases kind with
  | static_ =>
      rw [subroutine.count_table_of_class _ _ rfl, ofClass]
      exact cls.staticCount_eq
  | field =>
      rw [subroutine.count_table_of_class _ _ rfl, ofClass]
      exact cls.fieldCount_eq
  | argument =>
      rw [subroutine.count_argument_table, counted_of_le (isCounted.arguments subroutine member)]
      rfl
  | var =>
      rw [subroutine.count_table, counted_of_le (isCounted.locals subroutine member)]
      rfl

/-- The fields that a class is told to have. -/
theorem counted_fieldCount {cls : Class} (isCounted : cls.IsCounted) :
    counted cls.fieldCount = cls.fieldCount := by
  refine counted_of_le ?_
  rw [← cls.fieldCount_eq]
  exact isCounted.shared .field

section Subroutines

variable {library : Library} {cls : Class} {subroutine : Subroutine}

/-- The cell of a declaration that is found is in the storage. -/
theorem index_lt_size (isCounted : cls.IsCounted) (member : subroutine ∈ cls.subroutines)
    (proper : ∀ token ∈ cls.tokens, token.IsProper) {name : String} {entry : Symbol.Entry}
    (found : (subroutine.table cls.name cls.table).lookup? name = some entry) :
    (Place.ofEntry entry).index <
      (subroutine.storage cls subroutine.localCount).size (Place.ofEntry entry).segment := by
  show entry.index < (subroutine.storage cls subroutine.localCount).size entry.kind.segment
  rw [← count_eq_size isCounted member]
  exact (Subroutine.numbered_table isCounted member).lookup (Subroutine.sound_table member proper) found

/-- **What is emitted** for declared names keeps to the storage. -/
theorem Emitted.admitted {parts : Parts} {instruction : Instruction}
    (emitted : Emitted library (subroutine.table cls.name cls.table) cls.name parts instruction)
    (isCounted : cls.IsCounted) (member : subroutine ∈ cls.subroutines)
    (proper : ∀ token ∈ cls.tokens, token.IsProper)
    (declared : ∀ name ∈ parts.names,
      (subroutine.table cls.name cls.table).contains name = true) :
    (subroutine.storage cls subroutine.localCount).Admits instruction := by
  have variable_small (name : String) (used : name ∈ parts.names) :
      (placeOf (subroutine.table cls.name cls.table) name).index <
        (subroutine.storage cls subroutine.localCount).size
          (placeOf (subroutine.table cls.name cls.table) name).segment := by
    obtain ⟨entry, found⟩ := Option.isSome_iff_exists.mp (declared name used)
    rw [placeOf, found]
    exact index_lt_size isCounted member proper found
  cases emitted with
  -- constants
  | integer | zero | length | character => exact trivial
  -- variables: their indices are those of the symbol table
  | load used => exact Storage.admits_push (variable_small _ used)
  | store used => exact Storage.admits_pop (variable_small _ used)
  | receiver found => exact Storage.admits_push (index_lt_size isCounted member proper found)
  -- cells that every subroutine has
  | self => exact Nat.zero_lt_two
  | address => exact Nat.one_lt_two
  | element | storeElement | restore | scratch => exact Nat.zero_lt_one
  | operate | library | call | label | goto | ifGoto | return_ => exact trivial

/-- How a subroutine comes by its object: a method has an argument, whatever its parameters. -/
theorem admits_prologue (fields number : Nat) :
    ∀ i ∈ (subroutine.resolved cls.name cls.table number).prologue library fields,
      (subroutine.storage cls subroutine.localCount).Admits i := by
  intro i inside
  rcases prologue_cases inside with rfl | ⟨isMethod, rfl⟩ | ⟨-, rfl | rfl⟩
  · exact Nat.zero_lt_two
  · have kind : subroutine.kind = .method := isMethod
    show 0 < subroutine.parameters.length + if subroutine.kind = .method then 1 else 0
    rw [if_pos kind]
    exact Nat.succ_pos _
  · exact trivial
  · exact trivial

/-- **The body of a subroutine** keeps to its storage. -/
theorem admits_bodyCode (isCounted : cls.IsCounted) (member : subroutine ∈ cls.subroutines)
    (proper : ∀ token ∈ cls.tokens, token.IsProper)
    (declared : ∀ name ∈ statementNames subroutine.body,
      (subroutine.table cls.name cls.table).contains name = true) (fields number : Nat) :
    ∀ i ∈ bodyCode library fields (subroutine.resolved cls.name cls.table number),
      (subroutine.storage cls subroutine.localCount).Admits i := by
  intro i inside
  rcases bodyCode_cases inside with inPrologue | emitted
  · exact admits_prologue fields number i inPrologue
  · exact emitted.admitted isCounted member proper declared

/-- A constructor begins by allocating. -/
theorem bodyCode_constructor (isConstructor : subroutine.kind = .constructor_) (fields number : Nat) :
    ∃ rest, bodyCode library fields (subroutine.resolved cls.name cls.table number) =
      .push .constant fields :: .call library.allocator 1 :: .pop .pointer 0 :: rest := by
  have prologue : (subroutine.resolved cls.name cls.table number).prologue library fields =
      [.push .constant fields, .call library.allocator 1, .pop .pointer 0] := by
    unfold Jack.Subroutine.prologue
    rw [show (subroutine.resolved cls.name cls.table number).kind = .constructor_ from isConstructor]
    rfl
  rw [bodyCode, prologue]
  exact ⟨_, rfl⟩

end Subroutines

/-! ## Classes -/

/-- Subroutines one after the other. -/
theorem isWithinStorage_subroutines {library : Library} {cls : Class} (isCounted : cls.IsCounted)
    (proper : ∀ token ∈ cls.tokens, token.IsProper) {written : List Subroutine}
    (ofClass : written ⊆ cls.subroutines)
    (declared : ∀ s ∈ written, ∀ name ∈ statementNames s.body,
      (s.table cls.name cls.table).contains name = true) (first : Nat) :
    List.Forall₂ (IsWithinStorage library cls) written
      ((resolvedSubroutines cls.name cls.table first written).map
        (·.code library cls.name cls.fieldCount)) := by
  induction written generalizing first with
  | nil => exact .nil
  | cons subroutine rest ih =>
      obtain ⟨here, others⟩ := List.forall_mem_cons.mp declared
      obtain ⟨member, restOfClass⟩ := List.cons_subset.mp ofClass
      have count : counted subroutine.localCount = subroutine.localCount :=
        counted_of_le (isCounted.locals subroutine member)
      refine .cons ⟨subroutine.localCount,
        bodyCode library cls.fieldCount (subroutine.resolved cls.name cls.table first), ?_, ?_, ?_, ?_⟩
        (ih restOfClass others _)
      · show Instruction.function _ (counted subroutine.localCount) :: _ = _
        rw [count]
        rfl
      · exact subroutine.headless_body library cls.name cls.table first cls.fieldCount
      · exact admits_bodyCode isCounted member proper here cls.fieldCount first
      · intro isConstructor
        exact bodyCode_constructor isConstructor cls.fieldCount first

/-- **Every variable access is inside its storage.**  The code of an accepted text consists of that of its
subroutines.  If no counter is beyond its bits, in each of them every local variable is one that its header
counts, every argument one of its parameters or the object of a method, every field and every static one of
the class; besides, only the two pointers, one temporary cell and one element of an array are accessed.  The
fields are as many as every constructor allocates. -/
theorem accesses_within_storage {session : Session} {source : String} {compiled : CompiledClass}
    (accepted : (session.compile source).1 = .ok compiled) :
    ∃ cls : Class, cls.IsWrittenIn source ∧ ∃ codes, compiled.code = codes.flatten ∧
      (cls.IsCounted → List.Forall₂ (IsWithinStorage session.library cls) cls.subroutines codes) := by
  obtain ⟨tokens, cls, read, spelled, -, admissible, rfl, -⟩ := compile_to_resolved accepted
  have proper := isProper_of_spelled read spelled
  refine ⟨cls, ⟨tokens, read, spelled⟩, _, List.flatMap_def, fun isCounted => ?_⟩
  show List.Forall₂ _ _ ((resolvedSubroutines cls.name cls.table session.nextLabel cls.subroutines).map
    (·.code session.library cls.name (counted cls.fieldCount)))
  rw [counted_fieldCount isCounted]
  exact isWithinStorage_subroutines isCounted proper (List.Subset.refl _)
    (fun s member => (admissible s member).declared) session.nextLabel

/-- A class with a variable of every kind; the constructor declares two local variables of one name. -/
private def cellSource : String :=
  "class Cell \x7b static int n; field int x, y; " ++
    "constructor Cell new(int a) \x7b var int i, i; let i = a; let y = i; return this; \x7d " ++
    "method int get(int a) \x7b let n = a; return y; \x7d \x7d"

/-- The class in it. -/
private def cellClass : Class where
  name := "Cell"
  shared := [⟨false, ⟨.int, "n", []⟩⟩, ⟨true, ⟨.int, "x", ["y"]⟩⟩]
  subroutines := [
    { kind := .constructor_
      returns := some (.class_ "Cell")
      name := "new"
      parameters := [⟨.int, "a"⟩]
      locals := [⟨.int, "i", ["i"]⟩]
      body := [.assign "i" (.chain (.variable "a") []), .assign "y" (.chain (.variable "i") []),
        .leave (some (.chain .this []))] },
    { kind := .method
      returns := some .int
      name := "get"
      parameters := [⟨.int, "a"⟩]
      locals := []
      body := [.assign "n" (.chain (.variable "a") []), .leave (some (.chain (.variable "y") []))] }]

theorem cell_accesses_within_storage : ∃ compiled,
    ((⟨{}, 0⟩ : Session).compile cellSource).1 = .ok compiled ∧
      compiled.code =
        [.function "Cell.new" 2, .push .constant 2, .call "Memory.alloc" 1, .pop .pointer 0,
          .push .argument 0, .pop .local_ 1, .push .local_ 1, .pop .this 1, .push .pointer 0, .return_,
          .push .pointer 0, .return_,
          .function "Cell.get" 0, .push .argument 0, .pop .pointer 0, .push .argument 1,
          .pop .static_ 0, .push .this 1, .return_] ∧
      ∃ codes, compiled.code = codes.flatten ∧
        List.Forall₂ (IsWithinStorage {} cellClass) cellClass.subroutines codes := by
  have read : tokenize cellSource = .ok (cellClass.tokens.map (⟨·, 1⟩)) := by
    show tokenize (String.ofList _ ++ String.ofList _ ++ String.ofList _) = _
    rw [← String.ofList_append, ← String.ofList_append, tokenize_ofList]
    set_option maxRecDepth 2000 in rfl
  have accepted : ((⟨{}, 0⟩ : Session).compile cellSource).1 = .ok ⟨"Cell",
      [.function "Cell.new" 2, .push .constant 2, .call "Memory.alloc" 1, .pop .pointer 0,
        .push .argument 0, .pop .local_ 1, .push .local_ 1, .pop .this 1, .push .pointer 0, .return_,
        .push .pointer 0, .return_,
        .function "Cell.get" 0, .push .argument 0, .pop .pointer 0, .push .argument 1,
        .pop .static_ 0, .push .this 1, .return_]⟩ := by
    rw [Session.compile, read]
    rfl
  have isCounted : cellClass.IsCounted :=
    ⟨fun kind => by cases kind <;> decide, by decide, by decide⟩
  obtain ⟨cls, written, codes, together, within⟩ := accesses_within_storage accepted
  obtain rfl : cls = cellClass := written.unique ⟨_, read, rfl⟩
  exact ⟨_, accepted, rfl, codes, together, within isCounted⟩

end Written

end JackToolchain.Jack

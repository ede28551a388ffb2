import JackToolchain.Proofs.Symbol.Declarations

/-!
# Cells

What is known about every declaration in a symbol table.

## Main Definitions

* `Table.Sound` — every declaration stands in the scope of its kind, and has an index that a counter shows
  and a type with a given property.
* `Table.Numbered` — every index is below the count of its kind.

## Main Statements

* `Table.Sound.define`, `Table.Sound.clear` — declaring and forgetting keep a table sound.
* `Table.Numbered.define`, `Table.Numbered.clear` — they keep it numbered, as long as no counter is full.
* `Table.Sound.lookup`, `Table.Numbered.lookup` — what is known about a declaration that is found.
-/

namespace JackToolchain.Symbol

/-- **Sound tables.** -/
structure Table.Sound (isType : String → Prop) (table : Table) : Prop where
  ofClass : ∀ entry ∈ table.ofClass.entries,
    entry.index ≤ largestCount ∧ entry.kind.isOfClass = true ∧ isType entry.type
  ofSubroutine : ∀ entry ∈ table.ofSubroutine.entries,
    entry.index ≤ largestCount ∧ entry.kind.isOfClass = false ∧ isType entry.type

/-- A declaration more has an index that its counter has shown. -/
theorem Scope.index_le {scope : Scope} {name type : String} {kind : Kind} {P : Entry → Prop}
    (before : ∀ entry ∈ scope.entries, entry.index ≤ largestCount ∧ P entry)
    (added : P (scope.entryFor name type kind)) :
    ∀ entry ∈ (scope.define name type kind).entries, entry.index ≤ largestCount ∧ P entry :=
  List.forall_mem_cons.mpr ⟨⟨scope.counts.get_le kind, added⟩, before⟩

namespace Table.Sound

variable {isType : String → Prop} {table : Table}

theorem empty : Sound isType {} := ⟨List.forall_mem_nil _, List.forall_mem_nil _⟩

/-- **Declaring** keeps a table sound. -/
theorem define (sound : Sound isType table) (name : String) {type : String} (typed : isType type)
    (kind : Kind) : Sound isType (table.define name type kind) := by
  unfold Table.define
  split
  · rename_i inClass
    exact ⟨Scope.index_le (P := fun e => e.kind.isOfClass = true ∧ isType e.type)
      sound.ofClass ⟨inClass, typed⟩, sound.ofSubroutine⟩
  · rename_i inside
    exact ⟨sound.ofClass, Scope.index_le
      (P := fun e => e.kind.isOfClass = false ∧ isType e.type) sound.ofSubroutine
      ⟨Bool.eq_false_iff.mpr inside, typed⟩⟩

/-- **Forgetting** the subroutine keeps a table sound. -/
theorem clear (sound : Sound isType table) : Sound isType table.clear :=
  ⟨sound.ofClass, List.forall_mem_nil _⟩

/-- **What is found** has an index that a counter shows. -/
theorem lookup (sound : Sound isType table) {name : String} {entry : Entry}
    (found : table.lookup? name = some entry) : entry.index ≤ largestCount ∧ isType entry.type := by
  unfold Table.lookup? at found
  rcases Option.or_eq_some_iff.mp found with inside | ⟨-, inClass⟩
  · obtain ⟨below, -, typed⟩ := sound.ofSubroutine entry (List.mem_of_find?_eq_some inside)
    exact ⟨below, typed⟩
  · obtain ⟨below, -, typed⟩ := sound.ofClass entry (List.mem_of_find?_eq_some inClass)
    exact ⟨below, typed⟩

end Table.Sound

/-! ## Counts -/

/-- Every index of a scope is below the count of its kind. -/
def Scope.Numbered (scope : Scope) : Prop :=
  ∀ entry ∈ scope.entries, entry.index < scope.count entry.kind

/-- A declaration more gives indices below the counts again, unless its counter was full. -/
theorem Scope.Numbered.define {scope : Scope} {kind : Kind} (numbered : scope.Numbered)
    (room : scope.count kind < largestCount) (name type : String) :
    (scope.define name type kind).Numbered := by
  have next (other : Kind) : (scope.define name type kind).count other =
      scope.count other + if other = kind then 1 else 0 := by
    rw [Scope.count_define]
    refine counted_of_le ?_
    split
    · rename_i same
      rw [same]
      exact room
    · exact scope.counts.get_le other
  refine List.forall_mem_cons.mpr ⟨?_, fun entry member => ?_⟩
  · rw [next, Scope.entryFor, if_pos rfl]
    exact Nat.lt_succ_self _
  · rw [next]
    exact Nat.lt_of_lt_of_le (numbered entry member) (Nat.le_add_right _ _)

/-- **Numbered tables.** -/
structure Table.Numbered (table : Table) : Prop where
  ofClass : table.ofClass.Numbered
  ofSubroutine : table.ofSubroutine.Numbered

namespace Table.Numbered

variable {table : Table}

theorem empty : Numbered {} := ⟨List.forall_mem_nil _, List.forall_mem_nil _⟩

/-- **Declaring** keeps a table numbered, if the counter is not full. -/
theorem define (numbered : table.Numbered) {kind : Kind} (room : table.count kind < largestCount)
    (name type : String) : (table.define name type kind).Numbered := by
  unfold Table.define
  unfold Table.count Table.scopeOf at room
  split
  · rename_i inClass
    rw [if_pos inClass] at room
    exact ⟨numbered.ofClass.define room name type, numbered.ofSubroutine⟩
  · rename_i inside
    rw [if_neg inside] at room
    exact ⟨numbered.ofClass, numbered.ofSubroutine.define room name type⟩

/-- **Forgetting** the subroutine keeps a table numbered. -/
theorem clear (numbered : table.Numbered) : table.clear.Numbered :=
  ⟨numbered.ofClass, List.forall_mem_nil _⟩

/-- **What is found** in a sound table has an index below the count of its kind. -/
theorem lookup {isType : String → Prop} (numbered : table.Numbered) (sound : Sound isType table)
    {name : String} {entry : Entry} (found : table.lookup? name = some entry) :
    entry.index < table.count entry.kind := by
  unfold Table.lookup? at found
  unfold Table.count Table.scopeOf
  rcases Option.or_eq_some_iff.mp found with inside | ⟨-, inClass⟩
  · have member := List.mem_of_find?_eq_some inside
    rw [if_neg (by rw [(sound.ofSubroutine entry member).2.1]; exact Bool.false_ne_true)]
    exact numbered.ofSubroutine entry member
  · have member := List.mem_of_find?_eq_some inClass
    rw [if_pos (sound.ofClass entry member).2.1]
    exact numbered.ofClass entry member

end Table.Numbered

end JackToolchain.Symbol

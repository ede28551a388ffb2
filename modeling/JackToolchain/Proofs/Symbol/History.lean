import JackToolchain.Proofs.Symbol.Cells
import Mathlib.Data.List.DropRight
import Mathlib.Data.List.Induction
import Mathlib.Data.List.Nodup

/-!
# Histories of symbol tables

A symbol table answers as its history says: names mean their latest declaration that is still in force, and indices
count declarations.

## Main Definitions

* `Step`, `Table.after` — what can be done to a table, and the table that is left.
* `declared` — how many variables of a kind were declared since its scope was emptied last.
* `IsCounted` — never more than a counter shows.
* `IsLatest`, `RefersTo` — the declaration of a name that is in force in one of the scopes, and in both together.
* `Scope.Apart` — declarations of a kind have indices of their own.

## Main Statements

* `Step.at_scope` — all that a step can do to one of the two scopes.
* `Table.count_after`, `Table.get?_after` — a scope holds what its history says.
* `Table.after_numbered`, `Table.after_apart` — the declarations in a table are kept apart.
* `Table.answers_from_history` — the answers of a table after any steps.

## Design Notes

The two scopes behave alike, but for the steps that empty them.  So they are told apart by a truth value, as kinds are
by `Kind.isOfClass`, and everything is proved about a scope before it is put together for the table.  An old
declaration of a name may stay in a scope, hidden, which is why `Apart` is about all entries and not only about those
that can be found.
-/

namespace JackToolchain.Symbol

/-! ## Steps -/

/-- What can be done to a symbol table. -/
inductive Step where
  /-- A variable is declared. -/
  | define (name type : String) (kind : Kind)
  /-- A subroutine begins. -/
  | clear
  /-- A class begins. -/
  | reset
  deriving DecidableEq

namespace Step

/-- The table that a step leaves. -/
def apply (table : Table) : Step → Table
  | .define name type kind => table.define name type kind
  | .clear => table.clear
  | .reset => {}

/-- Whether a step empties the scope of the class, or that of the subroutine. -/
def empties (ofClass : Bool) : Step → Bool
  | .define .. => false
  | .clear => !ofClass
  | .reset => true

/-- The kind of the variable that a step declares. -/
def kind? : Step → Option Kind
  | .define _ _ kind => some kind
  | .clear | .reset => none

/-- A step declares a name in one of the scopes. -/
def Declares (ofClass : Bool) (name : String) (step : Step) : Prop :=
  ∃ type kind, step = .define name type kind ∧ kind.isOfClass = ofClass

end Step

/-- How many variables of a kind were declared since its scope was emptied last. -/
def declared (kind : Kind) (history : List Step) : Nat :=
  (history.rtakeWhile (!·.empties kind.isOfClass)).countP (·.kind? = some kind)

/-- **Counted histories.**  At no time were more variables of a kind declared than a counter shows. -/
def IsCounted (history : List Step) : Prop :=
  ∀ earlier, earlier <+: history → ∀ kind, declared kind earlier ≤ largestCount

/-- **Declarations in force.**  The entry was declared in one of the scopes, with an index that counts the earlier
ones of its kind.  Since then the scope was not emptied, nor the name declared there again. -/
def IsLatest (history : List Step) (ofClass : Bool) (entry : Entry) : Prop :=
  ∃ earlier later, history = earlier ++ .define entry.name entry.type entry.kind :: later ∧
    entry.kind.isOfClass = ofClass ∧ entry.index = declared entry.kind earlier ∧
    ∀ step ∈ later, step.empties ofClass = false ∧ ¬ step.Declares ofClass entry.name

/-- **A name refers** to the declaration of the subroutine that is in force, or else to that of the class. -/
def RefersTo (history : List Step) (name : String) (entry : Entry) : Prop :=
  entry.name = name ∧
    (IsLatest history false entry ∨
      (∀ inner, inner.name = name → ¬ IsLatest history false inner) ∧ IsLatest history true entry)

namespace Table

/-- The table after some steps, from an empty one on. -/
def after (history : List Step) : Table := history.foldl Step.apply {}

/-- One of the two scopes. -/
def scopeAt (table : Table) (ofClass : Bool) : Scope := if ofClass then table.ofClass else table.ofSubroutine

@[simp] theorem after_nil : after [] = {} := rfl

@[simp] theorem after_concat (history : List Step) (step : Step) :
    after (history ++ [step]) = step.apply (after history) :=
  List.foldl_concat _ _ _ _

@[simp] theorem scopeAt_empty (ofClass : Bool) : ({} : Table).scopeAt ofClass = {} := ite_self _

end Table

/-- **A step** empties a scope, adds a declaration to it, or leaves it alone. -/
theorem Step.at_scope (step : Step) (ofClass : Bool) :
    (step.empties ofClass = true ∧ ∀ table : Table, (step.apply table).scopeAt ofClass = {}) ∨
    (∃ name type kind, kind.isOfClass = ofClass ∧ step = .define name type kind ∧
      ∀ table : Table, (step.apply table).scopeAt ofClass = (table.scopeAt ofClass).define name type kind) ∨
    (step.empties ofClass = false ∧ (∀ kind, kind.isOfClass = ofClass → step.kind? ≠ some kind) ∧
      ∀ table : Table, (step.apply table).scopeAt ofClass = table.scopeAt ofClass) := by
  cases step with
  | define name type kind =>
      right
      by_cases here : kind.isOfClass = ofClass
      · refine .inl ⟨name, type, kind, here, rfl, fun table => ?_⟩
        subst here
        rw [apply, Table.define, Table.scopeAt, Table.scopeAt]
        split
        · rfl
        · rfl
      · refine .inr ⟨rfl, ?_, fun table => ?_⟩
        · rintro other hereToo declares
          obtain rfl := Option.some.inj declares
          exact here hereToo
        · rw [apply, Table.define, Table.scopeAt, Table.scopeAt]
          obtain rfl := Bool.eq_not_of_ne (Ne.symm here)
          cases kind.isOfClass with
          | false => rfl
          | true => rfl
  | clear =>
      cases ofClass with
      | false => exact .inl ⟨rfl, fun table => rfl⟩
      | true => exact .inr (.inr ⟨rfl, fun kind _ => (Option.some_ne_none kind).symm, fun table => rfl⟩)
  | reset => exact .inl ⟨rfl, fun table => Table.scopeAt_empty ofClass⟩

/-! ## What histories say -/

section Histories

variable {history : List Step} {step : Step} {ofClass : Bool} {entry : Entry}

theorem Step.Declares.kind? {name : String} (declares : step.Declares ofClass name) :
    ∃ kind, kind.isOfClass = ofClass ∧ step.kind? = some kind := by
  obtain ⟨type, kind, rfl, here⟩ := declares
  exact ⟨kind, here, rfl⟩

theorem declared_concat (kind : Kind) (history : List Step) (step : Step) :
    declared kind (history ++ [step]) =
      if step.empties kind.isOfClass then 0 else declared kind history + if step.kind? = some kind then 1 else 0 := by
  cases empties : step.empties kind.isOfClass with
  | true => simp [declared, empties]
  | false => simp [declared, empties, List.countP_append, List.countP_singleton]

theorem declared_le_length (kind : Kind) (history : List Step) : declared kind history ≤ history.length :=
  List.countP_le_length.trans (List.rtakeWhile_suffix _ history).length_le

/-- Short histories are counted. -/
theorem isCounted_of_length (short : history.length ≤ largestCount) : IsCounted history :=
  fun earlier isPrefix kind => (declared_le_length kind earlier).trans (isPrefix.length_le.trans short)

theorem IsCounted.front (isCounted : IsCounted (history ++ [step])) : IsCounted history :=
  fun earlier isPrefix => isCounted earlier (isPrefix.trans (List.prefix_append _ _))

/-- What was declared is a number that a counter shows… -/
theorem IsCounted.counted (isCounted : IsCounted history) (kind : Kind) :
    counted (declared kind history) = declared kind history :=
  counted_of_le (isCounted history (List.prefix_refl history) kind)

/-- …and in front of a declaration there was room. -/
theorem IsCounted.room {name type : String} {kind : Kind}
    (isCounted : IsCounted (history ++ [.define name type kind])) :
    declared kind history < largestCount := by
  have few := isCounted _ (List.prefix_refl _) kind
  have declares : (Step.define name type kind).kind? = some kind := rfl
  rwa [declared_concat, if_neg (by simp [Step.empties]), if_pos declares] at few

theorem not_isLatest_nil : ¬ IsLatest [] ofClass entry := by
  rintro ⟨earlier, later, cut, -⟩
  exact List.append_ne_nil_of_right_ne_nil earlier (List.cons_ne_nil _ later) cut.symm

/-- What is in force after one more step: what it declares, and what was in force if it neither empties the scope nor
declares the name. -/
theorem isLatest_concat : IsLatest (history ++ [step]) ofClass entry ↔
    (step = .define entry.name entry.type entry.kind ∧ entry.kind.isOfClass = ofClass ∧
        entry.index = declared entry.kind history) ∨
      IsLatest history ofClass entry ∧ step.empties ofClass = false ∧ ¬ step.Declares ofClass entry.name := by
  constructor
  · rintro ⟨earlier, later, cut, here, index, kept⟩
    -- the last step is the declaration itself, or one of those behind it
    obtain rfl | ⟨before, last, rfl⟩ := later.eq_nil_or_concat'
    · obtain ⟨rfl, same⟩ := List.append_inj' cut rfl
      exact .inl ⟨List.singleton_inj.mp same, here, index⟩
    · rw [← List.cons_append, ← List.append_assoc] at cut
      obtain ⟨rfl, same⟩ := List.append_inj' cut rfl
      obtain rfl := List.singleton_inj.mp same
      exact .inr ⟨⟨earlier, before, rfl, here, index, fun step member => kept step (List.mem_append_left _ member)⟩,
        kept step (List.mem_append_right _ (List.mem_singleton_self step))⟩
  · rintro (⟨rfl, here, index⟩ | ⟨⟨earlier, later, rfl, here, index, kept⟩, stays⟩)
    · exact ⟨history, [], rfl, here, index, List.forall_mem_nil _⟩
    · refine ⟨earlier, later ++ [step], List.append_assoc _ _ _, here, index, fun other member => ?_⟩
      rcases List.mem_append.mp member with old | new
      · exact kept other old
      · obtain rfl := List.mem_singleton.mp new
        exact stays

end Histories

/-! ## What tables hold -/

namespace Table

variable {history : List Step}

/-- **Counters** show what was declared since their scope was emptied last. -/
theorem count_after (history : List Step) (kind : Kind) :
    (after history).count kind = counted (declared kind history) := by
  induction history using List.reverseRecOn with
  | nil => exact count_empty kind
  | append_singleton history step ih =>
      have here (table : Table) : table.count kind = (table.scopeAt kind.isOfClass).count kind := rfl
      rw [here] at ih
      rw [after_concat, declared_concat, here]
      rcases step.at_scope kind.isOfClass with
        ⟨empties, left⟩ | ⟨name, type, other, _, rfl, left⟩ | ⟨stays, others, left⟩
      · rw [left, empties, if_pos rfl]
        exact Counts.get_empty kind
      · rw [left, Scope.count_define, ih, counted_counted_add]
        simp only [Step.empties, Step.kind?, Option.some.injEq, Bool.false_eq_true, if_false, eq_comm]
      · rw [left, ih, stays, if_neg Bool.false_ne_true, if_neg (others kind rfl)]
        rfl

/-- What is declared next. -/
theorem entryFor_after (isCounted : IsCounted history) (name type : String) (kind : Kind) :
    ((after history).scopeAt kind.isOfClass).entryFor name type kind = ⟨name, type, kind, declared kind history⟩ := by
  rw [← isCounted.counted kind, ← count_after]
  rfl

/-- **Names** mean the declaration that is in force. -/
theorem get?_after (isCounted : IsCounted history) (ofClass : Bool) (name : String) (entry : Entry) :
    ((after history).scopeAt ofClass).get? name = some entry ↔ entry.name = name ∧ IsLatest history ofClass entry := by
  induction history using List.reverseRecOn with
  | nil =>
      rw [after_nil, scopeAt_empty, Scope.get?_empty]
      exact iff_of_false nofun fun ⟨_, latest⟩ => not_isLatest_nil latest
  | append_singleton history step ih =>
      have ih := ih isCounted.front
      rw [after_concat, isLatest_concat]
      rcases step.at_scope ofClass with ⟨empties, left⟩ | ⟨added, type, kind, rfl, rfl, left⟩ | ⟨stays, others, left⟩
      · rw [left, Scope.get?_empty]
        refine iff_of_false nofun ?_
        rintro ⟨-, ⟨rfl, -⟩ | ⟨-, stays, -⟩⟩
        · exact Bool.false_ne_true empties
        · exact Bool.false_ne_true (stays.symm.trans empties)
      · rw [left, Scope.get?_define, entryFor_after isCounted.front]
        -- the new declaration is the latest of its own name, and says nothing about others
        by_cases same : added = name
        · subst same
          rw [if_pos rfl]
          constructor
          · intro found
            obtain rfl := Option.some.inj found
            exact ⟨rfl, .inl ⟨rfl, rfl, rfl⟩⟩
          · rintro ⟨rfl, ⟨defined, _, index⟩ | ⟨_, _, notAgain⟩⟩
            · obtain ⟨-, rfl, rfl⟩ := Step.define.inj defined
              rw [← index]
            · exact absurd ⟨type, kind, rfl, rfl⟩ notAgain
        · rw [if_neg same, ih]
          refine and_congr_right fun named => ⟨fun latest => .inr ⟨latest, rfl, fun ⟨_, _, again, _⟩ => ?_⟩, ?_⟩
          · exact same ((Step.define.inj again).1.trans named)
          · rintro (⟨defined, -⟩ | ⟨latest, -⟩)
            · exact absurd ((Step.define.inj defined).1.trans named) same
            · exact latest
      · rw [left, ih]
        refine and_congr_right fun _ => ⟨fun latest => .inr ⟨latest, stays, fun declares => ?_⟩, ?_⟩
        · obtain ⟨kind, here, same⟩ := declares.kind?
          exact others kind here same
        · rintro (⟨rfl, here, -⟩ | ⟨latest, -⟩)
          · exact absurd rfl (others _ here)
          · exact latest

end Table

/-! ## Kept apart -/

/-- The cell of a variable, in the segment of its kind. -/
def Entry.cell (entry : Entry) : Kind × Nat := (entry.kind, entry.index)

/-- **Declarations kept apart.**  No two declarations of a scope share a cell. -/
def Scope.Apart (scope : Scope) : Prop := (scope.entries.map Entry.cell).Nodup

namespace Scope.Apart

variable {scope : Scope}

/-- A new declaration is kept apart from those whose indices are below the counts. -/
theorem define (apart : scope.Apart) (below : ∀ entry ∈ scope.entries, entry.index < scope.count entry.kind)
    (name type : String) (kind : Kind) : (scope.define name type kind).Apart := by
  refine List.nodup_cons.mpr ⟨fun shared => ?_, apart⟩
  obtain ⟨older, member, same⟩ := List.mem_map.mp shared
  obtain ⟨rfl, atCount⟩ := Prod.mk.inj same
  exact Nat.lt_irrefl _ (atCount ▸ below older member)

/-- Different names that are found are kept apart. -/
theorem cell_ne (apart : scope.Apart) {name other : String} {entry entryToo : Entry}
    (found : scope.get? name = some entry) (foundToo : scope.get? other = some entryToo) (distinct : name ≠ other) :
    entry.cell ≠ entryToo.cell := by
  intro same
  obtain rfl := List.inj_on_of_nodup_map apart (List.mem_of_find?_eq_some found) (List.mem_of_find?_eq_some foundToo)
    same
  have named := List.find?_some found
  have namedToo := List.find?_some foundToo
  exact distinct ((beq_iff_eq.mp named).symm.trans (beq_iff_eq.mp namedToo))

end Scope.Apart

namespace Table

/-- Everything in a sound table stands in the scope of its kind. -/
theorem Sound.at_scope {isType : String → Prop} {table : Table} (sound : Sound isType table) (ofClass : Bool) :
    ∀ entry ∈ (table.scopeAt ofClass).entries, entry.kind.isOfClass = ofClass := by
  intro entry member
  cases ofClass with
  | false => exact (sound.ofSubroutine entry member).2.1
  | true => exact (sound.ofClass entry member).2.1

/-- Every index of a numbered table is below the count in its scope. -/
theorem Numbered.at_scope {table : Table} (numbered : table.Numbered) (ofClass : Bool) :
    (table.scopeAt ofClass).Numbered := by
  cases ofClass with
  | false => exact numbered.ofSubroutine
  | true => exact numbered.ofClass

/-- A sound table finds a name in the scope of its kind. -/
theorem Sound.get?_of_lookup? {isType : String → Prop} {table : Table} (sound : Sound isType table) {name : String}
    {entry : Entry} (found : table.lookup? name = some entry) :
    (table.scopeAt entry.kind.isOfClass).get? name = some entry := by
  rcases Option.or_eq_some_iff.mp found with inside | ⟨-, inClass⟩
  · rw [sound.at_scope false entry (List.mem_of_find?_eq_some inside)]
    exact inside
  · rw [sound.at_scope true entry (List.mem_of_find?_eq_some inClass)]
    exact inClass

/-- Tables are sound, whatever is done. -/
theorem after_sound (history : List Step) : Sound (fun _ => True) (after history) := by
  induction history using List.reverseRecOn with
  | nil => exact Sound.empty
  | append_singleton history step ih =>
      rw [after_concat]
      cases step with
      | define name type kind => exact ih.define name trivial kind
      | clear => exact ih.clear
      | reset => exact Sound.empty

/-- Tables are numbered, as long as their histories are counted. -/
theorem after_numbered (isCounted : IsCounted history) : (after history).Numbered := by
  induction history using List.reverseRecOn with
  | nil => exact Numbered.empty
  | append_singleton history step ih =>
      have numbered := ih isCounted.front
      rw [after_concat]
      cases step with
      | define name type kind =>
          refine numbered.define ?_ name type
          rw [count_after, isCounted.front.counted]
          exact isCounted.room
      | clear => exact numbered.clear
      | reset => exact Numbered.empty

/-- The declarations of each scope are kept apart. -/
theorem after_apart (isCounted : IsCounted history) (ofClass : Bool) : ((after history).scopeAt ofClass).Apart := by
  induction history using List.reverseRecOn with
  | nil =>
      rw [after_nil, scopeAt_empty]
      exact List.nodup_nil
  | append_singleton history step ih =>
      have apart := ih isCounted.front
      rw [after_concat]
      rcases step.at_scope ofClass with ⟨_, left⟩ | ⟨name, type, kind, _, _, left⟩ | ⟨_, _, left⟩
      · rw [left]
        exact List.nodup_nil
      · rw [left]
        exact apart.define ((after_numbered isCounted.front).at_scope ofClass) name type kind
      · rw [left]
        exact apart

/-- Different names have different cells. -/
theorem after_cell_ne (isCounted : IsCounted history) {name other : String} {entry entryToo : Entry}
    (found : (after history).lookup? name = some entry) (foundToo : (after history).lookup? other = some entryToo)
    (distinct : name ≠ other) : entry.cell ≠ entryToo.cell := by
  intro same
  -- cells that are the same are of one kind, so both names are found in the scope of that kind
  obtain ⟨sameKind, -⟩ := Prod.mk.inj same
  have here := (after_sound history).get?_of_lookup? found
  have hereToo := (after_sound history).get?_of_lookup? foundToo
  rw [← sameKind] at hereToo
  exact (after_apart isCounted _).cell_ne here hereToo distinct same

/-! ## Answers -/

/-- What is found is what the history says. -/
theorem lookup?_after (isCounted : IsCounted history) (name : String) (entry : Entry) :
    (after history).lookup? name = some entry ↔ RefersTo history name entry := by
  have noneInside : ((after history).scopeAt false).get? name = none ↔
      ∀ inner, inner.name = name → ¬ IsLatest history false inner := by
    simp only [Option.eq_none_iff_forall_ne_some, ne_eq, get?_after isCounted, not_and]
  have cut : (after history).lookup? name = some entry ↔ ((after history).scopeAt false).get? name = some entry ∨
      ((after history).scopeAt false).get? name = none ∧ ((after history).scopeAt true).get? name = some entry :=
    Option.or_eq_some_iff
  rw [cut, noneInside, get?_after isCounted, get?_after isCounted]
  exact (and_or_left.trans (or_congr_right and_left_comm)).symm

/-- Nothing is found under names without a declaration in force. -/
theorem lookup?_after_eq_none (isCounted : IsCounted history) (name : String) : (after history).lookup? name = none ↔
    ∀ ofClass entry, entry.name = name → ¬ IsLatest history ofClass entry := by
  have cut : (after history).lookup? name = none ↔ ((after history).scopeAt false).get? name = none ∧
      ((after history).scopeAt true).get? name = none :=
    Option.or_eq_none_iff
  simp only [cut, Option.eq_none_iff_forall_ne_some, ne_eq, get?_after isCounted, not_and, Bool.forall_bool]

/-- What is declared is found in its scope at once. -/
theorem get?_define_after (isCounted : IsCounted history) (name type : String) (kind : Kind) :
    (((after history).define name type kind).scopeAt kind.isOfClass).get? name =
      some ⟨name, type, kind, declared kind history⟩ := by
  have added : ((after history).define name type kind).scopeAt kind.isOfClass =
      ((after history).scopeAt kind.isOfClass).define name type kind := by
    rw [define, scopeAt, scopeAt]
    split <;> rfl
  rw [added, Scope.get?_define, if_pos rfl, entryFor_after isCounted]

theorem resolve_eq_ok {table : Table} {name : String} {entry : Entry} :
    table.resolve name = .ok entry ↔ table.lookup? name = some entry := by
  rw [resolve]
  cases table.lookup? name with
  | none => exact iff_of_false nofun nofun
  | some found => rw [Except.ok.injEq, Option.some.injEq]

theorem resolve_eq_error {table : Table} {name : String} :
    table.resolve name = .error (.undefined name) ↔ table.lookup? name = none := by
  rw [resolve]
  cases table.lookup? name with
  | none => exact iff_of_true rfl rfl
  | some found => exact iff_of_false nofun nofun

/-- **A table answers from its history.**  After any declarations, of any names and kinds, and any beginnings of
subroutines and classes, with never more variables of a kind than a counter shows: the next index of a kind is the
number of its variables that were declared since its scope was emptied; a name refers to its latest declaration in
force, in the subroutine before the class, and without one neither kind nor type nor index is resolved; and different
names that refer to something have different cells, with indices below the count of their kind. -/
theorem answers_from_history (isCounted : IsCounted history) :
    (∀ name type kind, (after history).count kind = declared kind history ∧
      (((after history).define name type kind).scopeAt kind.isOfClass).get? name =
        some ⟨name, type, kind, declared kind history⟩) ∧
      (∀ name entry, (after history).lookup? name = some entry ↔ RefersTo history name entry) ∧
      (∀ name entry, (after history).resolve name = .ok entry ↔ RefersTo history name entry) ∧
      (∀ name, (after history).resolve name = .error (.undefined name) ↔
        ∀ ofClass entry, entry.name = name → ¬ IsLatest history ofClass entry) ∧
      (∀ name entry, (after history).lookup? name = some entry → entry.index < (after history).count entry.kind) ∧
      ∀ name other entry entryToo, (after history).lookup? name = some entry →
        (after history).lookup? other = some entryToo → name ≠ other →
          (entry.kind, entry.index) ≠ (entryToo.kind, entryToo.index) := by
  have counts (kind : Kind) : (after history).count kind = declared kind history :=
    (count_after history kind).trans (isCounted.counted kind)
  refine ⟨fun name type kind => ⟨counts kind, get?_define_after isCounted name type kind⟩,
    lookup?_after isCounted, fun name entry => ?_, fun name => ?_,
    fun name entry found => (after_numbered isCounted).lookup (after_sound history) found,
    fun name other entry entryToo found foundToo distinct => after_cell_ne isCounted found foundToo distinct⟩
  · rw [resolve_eq_ok, lookup?_after isCounted]
  · rw [resolve_eq_error, lookup?_after_eq_none isCounted]

/-- An argument hides a static of its name, and is declared again behind another. -/
theorem redeclared_argument_kept_apart :
    let table := after [.define "x" "int" .static_, .define "x" "char" .argument, .define "y" "int" .argument,
      .define "x" "int" .argument]
    table.lookup? "x" = some ⟨"x", "int", .argument, 2⟩ ∧ table.lookup? "y" = some ⟨"y", "int", .argument, 1⟩ ∧
      "x" ≠ "y" ∧ 2 < table.count .argument ∧ (Kind.argument, 2) ≠ (Kind.argument, 1) := by
  have isCounted : IsCounted [.define "x" "int" .static_, .define "x" "char" .argument,
      .define "y" "int" .argument, .define "x" "int" .argument] :=
    isCounted_of_length (by decide)
  obtain ⟨-, -, -, -, below, apart⟩ := answers_from_history isCounted
  exact ⟨rfl, rfl, by decide, below "x" _ rfl, apart "x" "y" _ _ rfl rfl (by decide)⟩

end Table

end JackToolchain.Symbol

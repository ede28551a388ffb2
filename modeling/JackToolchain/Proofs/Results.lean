import Mathlib.Data.List.Forall2

/-!
# Results

Computations that may fail, as values, and lists that are related item by item.

## Main Statements

* `both_ok`, `mapError_eq_ok` — a computation that succeeds has parts that do.
* `foldlM_cons_eq_ok`, `foldlM_append_of_ok` — so has a run over a list.
* `mapM_congr` — what the items of a list give together.
* `exists_partner`, `exists_partners` — items of related lists.
-/

namespace JackToolchain

/-! ## Computations -/

/-- A computation in two parts that succeeds succeeds in both. -/
theorem both_ok {α β ε : Type} {first : Except ε α} {second : α → Except ε β} {result : β}
    (ok : first >>= second = .ok result) :
    ∃ between, first = .ok between ∧ second between = .ok result := by
  cases first with
  | error cause => exact absurd ok (by simp [bind, Except.bind])
  | ok between => exact ⟨between, rfl, ok⟩

/-- A computation whose cause of failure is put differently succeeds as before. -/
theorem mapError_eq_ok {α ε ε' : Type} {computation : Except ε α} {reword : ε → ε'} {result : α}
    (ok : computation.mapError reword = .ok result) : computation = .ok result := by
  cases computation with
  | error cause => exact absurd ok (by simp [Except.mapError])
  | ok value => exact congrArg _ (Except.ok.inj ok)

section Runs

variable {α β ε : Type} {step : α → β → Except ε α} {before between after : α} {first : β}
  {front rest : List β}

/-- A run that succeeds takes a step that succeeds and runs on. -/
theorem foldlM_cons_eq_ok (ran : (first :: rest).foldlM step before = .ok after) :
    ∃ between, step before first = .ok between ∧ rest.foldlM step between = .ok after := by
  rw [List.foldlM_cons] at ran
  exact both_ok ran

/-- A step that succeeds is followed by the run over the other items. -/
theorem foldlM_cons_of_ok (stepped : step before first = .ok between) :
    (first :: rest).foldlM step before = rest.foldlM step between := by
  rw [List.foldlM_cons, stepped]
  rfl

/-- So is a run over the items in front. -/
theorem foldlM_append_of_ok (ran : front.foldlM step before = .ok between) :
    (front ++ rest).foldlM step before = rest.foldlM step between := by
  rw [List.foldlM_append, ran]
  rfl

end Runs

section Lists

variable {α β ε : Type} {f g : α → Except ε β} {list : List α}

/-- Items that each give the same give the same together. -/
theorem mapM_congr (same : ∀ item ∈ list, f item = g item) : list.mapM f = list.mapM g := by
  induction list with
  | nil => rfl
  | cons item rest ih =>
      obtain ⟨here, others⟩ := List.forall_mem_cons.mp same
      rw [List.mapM_cons, List.mapM_cons, here, ih others]

end Lists

/-! ## Related lists -/

/-- In lists that are related item by item, every item has a partner. -/
theorem exists_partner {α β : Type} {R : α → β → Prop} {list : List α} {partners : List β}
    (related : List.Forall₂ R list partners) {item : α} (member : item ∈ list) :
    ∃ partner ∈ partners, R item partner := by
  induction related with
  | nil => exact absurd member List.not_mem_nil
  | @cons first partner _ _ here _ ih =>
      rcases List.mem_cons.mp member with rfl | behind
      · exact ⟨partner, List.mem_cons_self, here⟩
      · obtain ⟨other, inRest, holds⟩ := ih behind
        exact ⟨other, List.mem_cons_of_mem _ inRest, holds⟩

/-- If every item has a partner, lists are related. -/
theorem exists_partners {α β : Type} {R : α → β → Prop} {list : List α}
    (each : ∀ item ∈ list, ∃ partner, R item partner) :
    ∃ partners, List.Forall₂ R list partners := by
  induction list with
  | nil => exact ⟨[], .nil⟩
  | cons first rest ih =>
      obtain ⟨here, others⟩ := List.forall_mem_cons.mp each
      obtain ⟨partner, related⟩ := here
      obtain ⟨partners, behind⟩ := ih others
      exact ⟨partner :: partners, .cons related behind⟩

end JackToolchain

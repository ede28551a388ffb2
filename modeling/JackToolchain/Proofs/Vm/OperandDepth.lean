import JackToolchain.Vm.Instruction

/-!
# Operand depth

How many operands lie on the stack in front of each instruction of a function's body.

## Main Definitions

* `Instruction.operands`, `Instruction.results` — what an instruction takes off the stack and puts on it.
* `depth` — the depth behind code that is walked in order, from zero.
* `BalancedBody` — no instruction takes what is not there, nothing lies on the stack where control flow
  joins or splits, and exactly the result lies there at a return.
* `Reaches` — a control-flow path of any length arrives at an instruction with some depth.
* `bodies` — the bodies of the functions of a code.

## Main Statements

* `Walks.append` — code that is walked in two parts.
* `Walks.balanced` — a body that is walked from zero to zero is balanced.
* `BalancedBody.depth_of_reaches` — on every control-flow path the depth at an instruction is the one of
  the walk.

## Design Notes

Depths are integers: in code that is not balanced a walk goes below zero, and that it does not is what
has to be shown.  Behind a return the walk begins anew, since control arrives there by a jump only.
-/

namespace JackToolchain.Vm

/-- How many operands an operation takes. -/
def Operation.operands : Operation → Nat
  | .neg | .not => 1
  | .add | .sub | .eq | .gt | .lt | .and | .or => 2

namespace Instruction

/-- What an instruction takes off the stack. -/
def operands : Instruction → Nat
  | push _ _ | label _ | goto _ | function _ _ => 0
  | pop _ _ | ifGoto _ | return_ => 1
  | operate operation => operation.operands
  | call _ argumentCount => argumentCount

/-- What an instruction puts on the stack. -/
def results : Instruction → Nat
  | push _ _ | operate _ | call _ _ => 1
  | pop _ _ | label _ | goto _ | ifGoto _ | function _ _ | return_ => 0

/-- Whether an instruction begins a function. -/
def isFunction : Instruction → Bool
  | function _ _ => true
  | _ => false

end Instruction

/-- The depth behind an instruction.  Behind a return it is zero. -/
def depthBehind (depth : Int) : Instruction → Int
  | .return_ => 0
  | instruction => depth - instruction.operands + instruction.results

/-- The depth behind code, from zero. -/
def depth (code : List Instruction) : Int := code.foldl depthBehind 0

/-- **A balanced body.** -/
structure BalancedBody (body : List Instruction) : Prop where
  /-- No instruction takes what is not there. -/
  supplied : ∀ front instruction behind, body = front ++ instruction :: behind →
    (instruction.operands : Int) ≤ depth front
  atLabel : ∀ front name behind, body = front ++ .label name :: behind → depth front = 0
  atGoto : ∀ front name behind, body = front ++ .goto name :: behind → depth front = 0
  behindIfGoto : ∀ front name behind, body = front ++ .ifGoto name :: behind →
    depth (front ++ [.ifGoto name]) = 0
  /-- At a return there is the result and nothing else. -/
  atReturn : ∀ front behind, body = front ++ .return_ :: behind → depth front = 1
  atEnd : depth body = 0

/-- **Control-flow paths.**  A path from the first instruction arrives at a position with a depth. -/
inductive Reaches (body : List Instruction) : Nat → Int → Prop
  | start : Reaches body 0 0
  /-- The next instruction follows, unless control leaves the straight line. -/
  | next {position : Nat} {depth : Int} {instruction : Instruction} :
      Reaches body position depth → body[position]? = some instruction →
      (∀ name, instruction ≠ .goto name) → instruction ≠ .return_ →
      Reaches body (position + 1) (depthBehind depth instruction)
  | jump {position target : Nat} {depth : Int} {name : String} :
      Reaches body position depth → body[position]? = some (.goto name) →
      body[target]? = some (.label name) → Reaches body target (depthBehind depth (.goto name))
  | branch {position target : Nat} {depth : Int} {name : String} :
      Reaches body position depth → body[position]? = some (.ifGoto name) →
      body[target]? = some (.label name) → Reaches body target (depthBehind depth (.ifGoto name))

/-- The bodies of the functions of a code: what stands behind each header, up to the next one. -/
def bodies : List Instruction → List (List Instruction)
  | [] => []
  | .function _ _ :: rest => rest.takeWhile (!·.isFunction) :: bodies rest
  | _ :: rest => bodies rest

/-! ## Walks -/

/-- What an instruction requires of the depth in front of it. -/
def Instruction.Allowed (depth : Int) : Instruction → Prop
  | label _ | goto _ => depth = 0
  | ifGoto _ | return_ => depth = 1
  | function _ _ => False
  | instruction => (instruction.operands : Int) ≤ depth

/-- **Walks.**  Code is walked in order from one depth to another, and every instruction is allowed at
the depth in front of it. -/
def Walks (depth : Int) : List Instruction → Int → Prop
  | [], after => depth = after
  | instruction :: rest, after =>
    instruction.Allowed depth ∧ Walks (depthBehind depth instruction) rest after

namespace Walks

variable {before between after : Int} {front behind body : List Instruction}

theorem append (first : Walks before front between) (second : Walks between behind after) :
    Walks before (front ++ behind) after := by
  induction front generalizing before with
  | nil =>
      obtain rfl : before = between := first
      exact second
  | cons instruction rest ih => exact ⟨first.1, ih first.2⟩

/-- Every instruction of a walk is allowed where it stands. -/
theorem allowed {instruction : Instruction}
    (walks : Walks before (front ++ instruction :: behind) after) :
    instruction.Allowed (front.foldl depthBehind before) := by
  induction front generalizing before with
  | nil => exact walks.1
  | cons first rest ih => exact ih walks.2

/-- A walk ends at the depth behind the code. -/
theorem depth_eq (walks : Walks before body after) : body.foldl depthBehind before = after := by
  induction body generalizing before with
  | nil => exact walks
  | cons instruction rest ih => exact ih walks.2

/-- An instruction that is allowed has its operands. -/
theorem operands_le_of_allowed {depth : Int} {instruction : Instruction}
    (allowed : instruction.Allowed depth) : (instruction.operands : Int) ≤ depth := by
  cases instruction with
  | push | pop | operate | call => exact allowed
  | label | goto => exact Int.le_of_eq (Eq.symm allowed)
  | ifGoto | return_ => exact Int.le_of_eq (Eq.symm allowed)
  | function => exact absurd allowed id

/-- **A body that is walked from zero to zero is balanced.** -/
theorem balanced (walks : Walks 0 body 0) : BalancedBody body where
  supplied front instruction behind same := by
    subst same
    exact operands_le_of_allowed walks.allowed
  atLabel front name behind same := by
    subst same
    exact walks.allowed
  atGoto front name behind same := by
    subst same
    exact walks.allowed
  behindIfGoto front name behind same := by
    subst same
    have before : depth front = 1 := walks.allowed
    rw [depth, List.foldl_append]
    show depthBehind (depth front) (.ifGoto name) = 0
    rw [before]
    rfl
  atReturn front behind same := by
    subst same
    exact walks.allowed
  atEnd := walks.depth_eq

end Walks

/-! ## Paths -/

/-- The depth behind one more instruction. -/
theorem depth_take_succ {body : List Instruction} {position : Nat} {instruction : Instruction}
    (found : body[position]? = some instruction) :
    depth (body.take (position + 1)) = depthBehind (depth (body.take position)) instruction := by
  rw [List.take_add_one, found, depth, List.foldl_append]
  rfl

/-- Code around one of its instructions. -/
theorem split_at {body : List Instruction} {position : Nat} {instruction : Instruction}
    (found : body[position]? = some instruction) :
    body = body.take position ++ instruction :: body.drop (position + 1) := by
  obtain ⟨bound, rfl⟩ := List.getElem?_eq_some_iff.mp found
  rw [← List.drop_eq_getElem_cons bound, List.take_append_drop]

/-- **Paths agree.**  On every control-flow path through a balanced body the depth at an instruction is
that of the walk. -/
theorem BalancedBody.depth_of_reaches {body : List Instruction} (balanced : BalancedBody body)
    {position : Nat} {found : Int} (reaches : Reaches body position found) :
    found = depth (body.take position) := by
  induction reaches with
  | start => rfl
  | next reaches here straight stays ih =>
      rw [depth_take_succ here, ← ih]
  | @jump position target found name reaches here there ih =>
      -- nothing lies on the stack at either end of a jump
      have source := balanced.atGoto _ _ _ (split_at here)
      have goal := balanced.atLabel _ _ _ (split_at there)
      rw [goal, ih, source]
      rfl
  | @branch position target found name reaches here there ih =>
      have source := balanced.behindIfGoto _ _ _ (split_at here)
      have goal := balanced.atLabel _ _ _ (split_at there)
      rw [depth, List.foldl_append] at source
      rw [goal, ih]
      exact source

/-- On no path does an instruction lack an operand, and at a return there is the result and nothing
else. -/
theorem BalancedBody.operands_of_reaches {body : List Instruction} (balanced : BalancedBody body)
    {position : Nat} {found : Int} (reaches : Reaches body position found)
    {instruction : Instruction} (here : body[position]? = some instruction) :
    (instruction.operands : Int) ≤ found ∧ (instruction = .return_ → found = 1) := by
  rw [balanced.depth_of_reaches reaches]
  refine ⟨balanced.supplied _ _ _ (split_at here), ?_⟩
  rintro rfl
  exact balanced.atReturn _ _ (split_at here)

/-! ## Bodies -/

/-- Code without a header belongs to the body in front of it. -/
theorem bodies_append {body : List Instruction} (rest : List Instruction)
    (none : ∀ instruction ∈ body, instruction.isFunction = false) :
    bodies (body ++ rest) = bodies rest := by
  induction body with
  | nil => rfl
  | cons instruction behind ih =>
      obtain ⟨first, others⟩ := List.forall_mem_cons.mp none
      rw [List.cons_append]
      cases instruction with
      | function => exact (Bool.noConfusion first)
      | _ => exact ih others

/-- The body behind a header goes up to the next one. -/
theorem bodies_function (name : String) (locals : Nat) {body rest : List Instruction}
    (none : ∀ instruction ∈ body, instruction.isFunction = false)
    (begins : ∀ instruction ∈ rest.head?, instruction.isFunction = true) :
    bodies (.function name locals :: (body ++ rest)) = body :: bodies rest := by
  have stops : rest.takeWhile (!·.isFunction) = [] := by
    cases rest with
    | nil => rfl
    | cons instruction behind =>
        refine List.takeWhile_cons_of_neg ?_
        simp [begins instruction rfl]
  rw [bodies, bodies_append rest none, List.takeWhile_append_of_pos, stops, List.append_nil]
  intro instruction member
  simp [none instruction member]

end JackToolchain.Vm

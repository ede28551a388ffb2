import JackToolchain.Proofs.Jack.Grammar
import JackToolchain.Proofs.Jack.LabelNumbers
import JackToolchain.Proofs.Jack.Labels

/-!
# Labels of a session

Which labels the code has that a session returns, and where its jumps go.

## Main Definitions

* `targets` — the labels to which a code jumps.
* `IsClosed` — whatever is jumped to is declared exactly once, in the function that contains the jump.
* `Compilation`, `Session.compilations` — texts compiled in one session, each with the session in front
  of it.

## Main Statements

* `targets_statementsCode` — statements jump only to labels of their own.
* `Lands.append` — functions whose jumps have labels of their own can be put together.
* `Session.numbered` — the labels of all code of a session are given by the numbers that were taken.
* `Session.labels_closed_and_unique` — jumps in a compiled class are closed, no label is declared twice in a
  session, and numbers that a refused text has taken are never given again.

## Design Notes

A refused text has no code, so its numbers can only be seen in the session behind it: it has taken one for
each branching statement that begins in what was read of it.
-/

namespace JackToolchain.Jack

open Vm

/-! ## Jumps -/

/-- The labels to which a code jumps. -/
def targets (code : List Instruction) : List String :=
  code.filterMap fun
    | .goto name | .ifGoto name => some name
    | _ => none

@[simp] theorem targets_nil : targets [] = [] := rfl

@[simp] theorem targets_append (front behind : List Instruction) :
    targets (front ++ behind) = targets front ++ targets behind :=
  List.filterMap_append

@[simp] theorem targets_label (name : String) (rest : List Instruction) :
    targets (.label name :: rest) = targets rest := rfl

@[simp] theorem targets_operate (operation : Operation) (rest : List Instruction) :
    targets (.operate operation :: rest) = targets rest := rfl

@[simp] theorem targets_goto (name : String) (rest : List Instruction) :
    targets (.goto name :: rest) = name :: targets rest := rfl

@[simp] theorem targets_ifGoto (name : String) (rest : List Instruction) :
    targets (.ifGoto name :: rest) = name :: targets rest := rfl

theorem mem_targets_iff {code : List Instruction} {name : String} :
    name ∈ targets code ↔ .goto name ∈ code ∨ .ifGoto name ∈ code := by
  unfold targets
  rw [List.mem_filterMap]
  constructor
  · rintro ⟨instruction, member, same⟩
    cases instruction <;> simp_all
  · rintro (member | member) <;> exact ⟨_, member, rfl⟩

/-- Straight code does not jump. -/
theorem targets_of_straight {code : List Instruction} (straight : Straight code) : targets code = [] := by
  refine List.eq_nil_iff_forall_not_mem.mpr fun name member => ?_
  rcases mem_targets_iff.mp member with jump | jump <;> exact Bool.noConfusion (straight _ jump)

namespace Written

section Statements

variable (library : Library) (table : Symbol.Table) (className : String)

theorem targets_expression (expression : Expression) :
    targets ((expression.resolved table className).code library) = [] :=
  targets_of_straight (straight_expression library table className expression)

theorem targets_branch (number : Nat) (condition : Expression)
    (whenTrue whenFalse : List Jack.Statement) :
    targets ((Jack.Statement.branch number (condition.resolved table className) whenTrue
      whenFalse).code library) =
      trueLabel number :: (targets (statementsCode library whenTrue) ++
        falseLabel number :: targets (statementsCode library whenFalse)) := by
  simp [Jack.Statement.code_branch, targets_expression]

theorem targets_loop (number : Nat) (condition : Expression) (body : List Jack.Statement) :
    targets ((Jack.Statement.loop number (condition.resolved table className) body).code library) =
      exitLabel number :: (targets (statementsCode library body) ++ [topLabel number]) := by
  simp [Jack.Statement.code_loop, targets_expression]

/-- A branch is closed if its bodies are. -/
theorem targets_branch_subset {number : Nat} {condition : Expression}
    {whenTrue whenFalse : List Jack.Statement}
    (one : targets (statementsCode library whenTrue) ⊆ labels (statementsCode library whenTrue))
    (two : targets (statementsCode library whenFalse) ⊆ labels (statementsCode library whenFalse)) :
    targets ((Jack.Statement.branch number (condition.resolved table className) whenTrue
      whenFalse).code library) ⊆ labels ((Jack.Statement.branch number
        (condition.resolved table className) whenTrue whenFalse).code library) := by
  rw [targets_branch, labels_branch]
  intro name member
  simp only [List.mem_cons, List.mem_append, List.not_mem_nil, or_false] at member ⊢
  rcases member with isTrue | inTrue | isFalse | inFalse
  · exact .inr (.inl isTrue)
  · exact .inl (one inTrue)
  · exact .inr (.inr (.inr isFalse))
  · exact .inr (.inr (.inl (two inFalse)))

mutual

/-- A statement jumps only to labels of its own… -/
theorem Statement.targets_code (statement : Statement) (first : Nat) :
    targets ((statement.resolved table className first).code library) ⊆
      labels ((statement.resolved table className first).code library) := by
  have straight {code : List Instruction} (isStraight : Straight code) : targets code ⊆ labels code := by
    rw [targets_of_straight isStraight]
    exact List.nil_subset _
  cases statement with
  | assign target value => exact straight (straight_assign library table className _ value)
  | assignElement array index value =>
      exact straight (straight_assignElement library table className _ index value)
  | branch condition body =>
      exact targets_branch_subset library table className (targets_statementsCode body _)
        (List.nil_subset _)
  | choice condition whenTrue whenFalse =>
      exact targets_branch_subset library table className (targets_statementsCode whenTrue _)
        (targets_statementsCode whenFalse _)
  | loop condition body =>
      have inner := targets_statementsCode body (first + 1)
      -- The exit is the first target and the last label, the top the other way around.
      rw [Statement.resolved, targets_loop, labels_loop]
      intro name member
      simp only [List.mem_cons, List.mem_append, List.not_mem_nil, or_false] at member ⊢
      rcases member with isExit | inBody | isTop
      · exact .inr (.inr isExit)
      · exact .inr (.inl (inner inBody))
      · exact .inl isTop
  | run callee arguments => exact straight (straight_run library table className callee arguments)
  | leave value =>
      refine fun name member => absurd member ?_
      cases value with
      | none =>
          rw [Statement.resolved, Option.map_none, Jack.Statement.code_leave_none]
          exact List.not_mem_nil
      | some value =>
          rw [Statement.resolved, Option.map_some, Jack.Statement.code_leave_some, targets_append,
            targets_expression]
          exact List.not_mem_nil

/-- …and so do statements. -/
theorem targets_statementsCode (statements : List Statement) (first : Nat) :
    targets (statementsCode library (resolvedStatements table className first statements)) ⊆
      labels (statementsCode library (resolvedStatements table className first statements)) := by
  cases statements with
  | nil => exact List.nil_subset _
  | cons statement rest =>
      rw [resolvedStatements, statementsCode_cons, targets_append, labels_append]
      exact List.append_subset.mpr
        ⟨List.subset_append_of_subset_left _ (statement.targets_code first),
          List.subset_append_of_subset_right _ (targets_statementsCode rest _)⟩

end

end Statements

end Written

/-! ## Closed code -/

/-- How many headers stand in a code up to a position: positions with the same number are in the same
function. -/
def headersUpTo (code : List Instruction) (position : Nat) : Nat :=
  (code.take (position + 1)).countP (·.isFunction)

/-- **Closed code.**  Whatever is jumped to is declared exactly once, in the function that contains the
jump. -/
def IsClosed (code : List Instruction) : Prop :=
  ∀ position target, code[position]? = some (.goto target) ∨ code[position]? = some (.ifGoto target) →
    ∃ place, code[place]? = some (.label target) ∧ headersUpTo code place = headersUpTo code position ∧
      ∀ other, code[other]? = some (.label target) → other = place

/-- Code in which every jump has a label in its function. -/
def Lands (code : List Instruction) : Prop :=
  ∀ position target, code[position]? = some (.goto target) ∨ code[position]? = some (.ifGoto target) →
    ∃ place, code[place]? = some (.label target) ∧ headersUpTo code place = headersUpTo code position

theorem Lands.nil : Lands [] := by
  intro position target jump
  rw [List.getElem?_nil] at jump
  exact jump.elim nofun nofun

theorem headersUpTo_front {front : List Instruction} {position : Nat} (inside : position < front.length)
    (behind : List Instruction) : headersUpTo (front ++ behind) position = headersUpTo front position := by
  unfold headersUpTo
  rw [List.take_append_of_le_length inside]

theorem headersUpTo_behind (front behind : List Instruction) (position : Nat) :
    headersUpTo (front ++ behind) (front.length + position) =
      front.countP (·.isFunction) + headersUpTo behind position := by
  unfold headersUpTo
  rw [Nat.add_assoc, List.take_length_add_append, List.countP_append]

theorem Lands.append {front behind : List Instruction} (one : Lands front) (two : Lands behind) :
    Lands (front ++ behind) := by
  intro position target jump
  rcases Nat.lt_or_ge position front.length with inside | outside
  · rw [List.getElem?_append_left inside] at jump
    obtain ⟨place, label, same⟩ := one position target jump
    have placed : place < front.length := (List.getElem?_eq_some_iff.mp label).1
    refine ⟨place, ?_, ?_⟩
    · rw [List.getElem?_append_left placed]
      exact label
    · rw [headersUpTo_front placed, headersUpTo_front inside, same]
  · obtain ⟨further, rfl⟩ := Nat.exists_eq_add_of_le outside
    rw [List.getElem?_append_right outside, Nat.add_sub_cancel_left] at jump
    obtain ⟨place, label, same⟩ := two further target jump
    refine ⟨front.length + place, ?_, ?_⟩
    · rw [List.getElem?_append_right (Nat.le_add_right _ _), Nat.add_sub_cancel_left]
      exact label
    · rw [headersUpTo_behind, headersUpTo_behind, same]

/-- In the code of one function all positions are in this function. -/
theorem headersUpTo_function (name : String) (localCount : Nat) {body : List Instruction}
    (headless : ∀ i ∈ body, i.isFunction = false) (position : Nat) :
    headersUpTo (.function name localCount :: body) position = 1 := by
  have none : (body.take position).countP (·.isFunction) = 0 :=
    List.countP_eq_zero.mpr fun i member => by simp [headless i (List.mem_of_mem_take member)]
  unfold headersUpTo
  rw [List.take_succ_cons, List.countP_cons, none]
  rfl

theorem lands_function (name : String) (localCount : Nat) {body : List Instruction}
    (headless : ∀ i ∈ body, i.isFunction = false) (closed : targets body ⊆ labels body) :
    Lands (.function name localCount :: body) := by
  intro position target jump
  cases position with
  | zero => exact jump.elim nofun nofun
  | succ position =>
      have inBody : target ∈ targets body :=
        mem_targets_iff.mpr (jump.imp List.mem_of_getElem? List.mem_of_getElem?)
      obtain ⟨place, label⟩ := List.mem_iff_getElem?.mp (mem_labels_iff.mp (closed inBody))
      refine ⟨place + 1, label, ?_⟩
      rw [headersUpTo_function name localCount headless, headersUpTo_function name localCount headless]

/-- Where no label is declared twice, a label has one position. -/
theorem position_unique {code : List Instruction} (nodup : (labels code).Nodup) {name : String}
    {one other : Nat} (first : code[one]? = some (.label name))
    (second : code[other]? = some (.label name)) : one = other := by
  induction code generalizing one other with
  | nil => exact absurd first (by simp)
  | cons instruction rest ih =>
      have alone (found : instruction = .label name) {place : Nat}
          (again : rest[place]? = some (.label name)) : False := by
        subst found
        exact (List.nodup_cons.mp nodup).1 (mem_labels_iff.mpr (List.mem_of_getElem? again))
      have nodupRest : (labels rest).Nodup :=
        nodup.sublist ((List.sublist_cons_self instruction rest).filterMap _)
      cases one with
      | zero =>
          cases other with
          | zero => rfl
          | succ other => exact (alone (Option.some.inj first) second).elim
      | succ one =>
          cases other with
          | zero => exact (alone (Option.some.inj second) first).elim
          | succ other => exact congrArg (· + 1) (ih nodupRest first second)

/-- Jumps that land are closed if no label is declared twice. -/
theorem Lands.closed {code : List Instruction} (lands : Lands code) (nodup : (labels code).Nodup) :
    IsClosed code := by
  intro position target jump
  obtain ⟨place, label, same⟩ := lands position target jump
  exact ⟨place, label, same, fun other again => position_unique nodup again label⟩

namespace Written

/-- What stands in front of and behind the statements of a body does not jump. -/
theorem targets_bodyCode (library : Library) (fields : Nat) (subroutine : Jack.Subroutine) :
    targets (bodyCode library fields subroutine) =
      targets (statementsCode library subroutine.body) := by
  have prologue : targets (subroutine.prologue library fields) = [] := by
    unfold Jack.Subroutine.prologue
    cases subroutine.kind <;> rfl
  have epilogue : targets subroutine.epilogue = [] := by
    unfold Jack.Subroutine.epilogue
    cases subroutine.kind with
    | constructor_ => rfl
    | function | method =>
        dsimp only
        split <;> rfl
  rw [bodyCode, targets_append, targets_append, prologue, epilogue, List.nil_append, List.append_nil]

/-- **Jumps in subroutines** land in the subroutine. -/
theorem lands_subroutines (library : Library) (className : String) (ofClass : Symbol.Table)
    (fields first : Nat) (written : List Subroutine) :
    Lands ((resolvedSubroutines className ofClass first written).flatMap
      (·.code library className fields)) := by
  induction written generalizing first with
  | nil => exact .nil
  | cons subroutine rest ih =>
      have headless := subroutine.headless_body library className ofClass first fields
      have here : Lands ((subroutine.resolved className ofClass first).code library className fields) := by
        rw [code_eq_bodyCode]
        refine lands_function _ _ headless ?_
        rw [targets_bodyCode, labels_bodyCode]
        exact targets_statementsCode library _ className subroutine.body first
      exact here.append (ih _)

end Written

/-! ## Sessions -/

/-- A text that is compiled in a session. -/
structure Compilation where
  /-- The session in front of it. -/
  before : Session
  source : String

namespace Compilation

/-- What becomes of the text. -/
def result (compilation : Compilation) : Except Error CompiledClass :=
  (compilation.before.compile compilation.source).1

/-- The session behind it. -/
def after (compilation : Compilation) : Session := (compilation.before.compile compilation.source).2

/-- The code that is returned; a text that is refused has none. -/
def code (compilation : Compilation) : List Instruction :=
  match compilation.result with
  | .ok compiled => compiled.code
  | .error _ => []

/-- The tokens that are read. -/
def tokensRead (compilation : Compilation) : List Token :=
  compilation.before.tokensRead compilation.source

/-- **Numbers of a text.**  The numbers that it takes give the labels of its code. -/
theorem numbered (compilation : Compilation) :
    Numbered compilation.before.nextLabel compilation.after.nextLabel compilation.code := by
  unfold code
  cases result : compilation.result with
  | error error =>
      have taken := compilation.before.nextLabel_compile compilation.source
      exact ⟨taken ▸ Nat.le_add_right _ _, List.nodup_nil, List.forall_mem_nil _⟩
  | ok compiled =>
      obtain ⟨tokens, cls, -, -, -, -, rfl, after⟩ := Written.compile_to_resolved result
      show Numbered compilation.before.nextLabel
        (compilation.before.compile compilation.source).2.nextLabel _
      rw [after]
      exact Written.numbered_subroutines compilation.before.library cls.name cls.table (counted cls.fieldCount)
        compilation.before.nextLabel cls.subroutines

/-- The code of a class is closed. -/
theorem closed {compilation : Compilation} {compiled : CompiledClass}
    (result : compilation.result = .ok compiled) : IsClosed compiled.code := by
  have numbered := compilation.numbered
  unfold code at numbered
  rw [result] at numbered
  obtain ⟨tokens, cls, -, -, -, -, rfl, -⟩ := Written.compile_to_resolved result
  exact (Written.lands_subroutines compilation.before.library cls.name cls.table (counted cls.fieldCount)
    compilation.before.nextLabel cls.subroutines).closed numbered.nodup

end Compilation

namespace Session

/-- Texts that are compiled one after the other. -/
def compilations (session : Session) : List String → List Compilation
  | [] => []
  | source :: rest => ⟨session, source⟩ :: (session.compile source).2.compilations rest

/-- The session behind texts. -/
def behind (session : Session) (sources : List String) : Session :=
  sources.foldl (fun session source => (session.compile source).2) session

/-- **Numbers of a session.**  The numbers that texts take give the labels of all their code. -/
theorem numbered (session : Session) (sources : List String) :
    Numbered session.nextLabel (session.behind sources).nextLabel
      ((session.compilations sources).flatMap (·.code)) := by
  induction sources generalizing session with
  | nil => exact .unlabeled rfl
  | cons source rest ih =>
      exact (Compilation.numbered ⟨session, source⟩).append (ih (session.compile source).2)

/-- Numbers only go up. -/
theorem nextLabel_le {session : Session} {sources : List String} {compilation : Compilation}
    (member : compilation ∈ session.compilations sources) :
    session.nextLabel ≤ compilation.before.nextLabel := by
  induction sources generalizing session with
  | nil => exact absurd member List.not_mem_nil
  | cons source rest ih =>
      rcases List.mem_cons.mp member with rfl | inRest
      · exact Nat.le_refl _
      · exact (Compilation.numbered ⟨session, source⟩).ordered.trans (ih inRest)

/-- **Numbers of a text are its own**: what is compiled in front of it or behind it has no label with one
of them. -/
theorem not_reused {session : Session} {sources : List String} {compilation : Compilation}
    (member : compilation ∈ session.compilations sources) (refused : compilation.code = [])
    {number : Nat} (first : compilation.before.nextLabel ≤ number)
    (last : number < compilation.after.nextLabel) {name : String} (isLabel : IsLabelOf number name) :
    name ∉ labels ((session.compilations sources).flatMap (·.code)) := by
  induction sources generalizing session with
  | nil => exact absurd member List.not_mem_nil
  | cons source rest ih =>
      rw [compilations, List.flatMap_cons, labels_append, List.mem_append, not_or]
      rcases List.mem_cons.mp member with rfl | inRest
      · refine ⟨by rw [refused]; exact List.not_mem_nil, fun inOthers => ?_⟩
        obtain ⟨other, more, -, isLabel'⟩ :=
          ((session.compile source).2.numbered rest).given name inOthers
        exact absurd (isLabel.number_unique isLabel' ▸ more) (Nat.not_le.mpr last)
      · refine ⟨fun inFirst => ?_, ih inRest⟩
        obtain ⟨other, -, less, isLabel'⟩ :=
          (Compilation.numbered ⟨session, source⟩).given name inFirst
        have below : other < number := less.trans_le ((nextLabel_le inRest).trans first)
        exact absurd (isLabel'.number_unique isLabel) below.ne

/-- **Labels are closed and unique in a session.**  Whatever texts are compiled in a session, with success
or not: in a class that is compiled, whatever is jumped to is declared exactly once, in the function that
contains the jump; no label is declared twice in all the code that is returned; and a text that is refused
takes one number for each branching statement that begins in what is read of it, which no label of
the session has. -/
theorem labels_closed_and_unique (session : Session) (sources : List String) :
    (∀ compilation ∈ session.compilations sources, ∀ compiled,
      compilation.result = .ok compiled → IsClosed compiled.code) ∧
    (labels ((session.compilations sources).flatMap (·.code))).Nodup ∧
    ∀ compilation ∈ session.compilations sources, ∀ error, compilation.result = .error error →
      compilation.after.nextLabel =
        compilation.before.nextLabel + compilation.tokensRead.countP beginsBranching ∧
      ∀ number, compilation.before.nextLabel ≤ number → number < compilation.after.nextLabel →
        ∀ name, IsLabelOf number name →
          name ∉ labels ((session.compilations sources).flatMap (·.code)) := by
  refine ⟨fun compilation _ compiled result => Compilation.closed result,
    (session.numbered sources).nodup, fun compilation member error result => ⟨?_, ?_⟩⟩
  · exact compilation.before.nextLabel_compile compilation.source
  · intro number first last name isLabel
    have refused : compilation.code = [] := by rw [Compilation.code, result]
    exact not_reused member refused first last isLabel

/-- A class with a loop. -/
private def loopingSource : String :=
  "class A \x7b function void f() \x7b while (true) \x7b \x7d return; \x7d \x7d"

/-- A text that ends in a loop. -/
private def brokenSource : String := "class B \x7b function void f() \x7b while (true) \x7b do"

/-- The tokens of the one… -/
private def loopingTokens : List Token :=
  [.keyword .class_, .identifier "A", .symbol '{', .keyword .function, .keyword .void, .identifier "f",
    .symbol '(', .symbol ')', .symbol '{', .keyword .while_, .symbol '(', .keyword .true_, .symbol ')',
    .symbol '{', .symbol '}', .keyword .return_, .symbol ';', .symbol '}', .symbol '}']

/-- …and of the other. -/
private def brokenTokens : List Token :=
  [.keyword .class_, .identifier "B", .symbol '{', .keyword .function, .keyword .void, .identifier "f",
    .symbol '(', .symbol ')', .symbol '{', .keyword .while_, .symbol '(', .keyword .true_, .symbol ')',
    .symbol '{', .keyword .do_]

theorem loops_numbered_apart :
    let calls := (⟨{}, 0⟩ : Session).compilations [loopingSource, brokenSource, loopingSource]
    (calls.map fun call => call.result.toOption.map fun compiled => labels compiled.code) =
        [some ["WHILE_EXP0", "WHILE_END0"], none, some ["WHILE_EXP2", "WHILE_END2"]] ∧
      (∀ compiled ∈ calls.filterMap (·.result.toOption), IsClosed compiled.code) ∧
      "WHILE_EXP1" ∉ labels (calls.flatMap (·.code)) := by
  obtain ⟨closed, -, refused⟩ :=
    labels_closed_and_unique ⟨{}, 0⟩ [loopingSource, brokenSource, loopingSource]
  have readLooping : tokenize loopingSource = .ok (loopingTokens.map (⟨·, 1⟩)) := (tokenize_ofList _).trans rfl
  have readBroken : tokenize brokenSource = .ok (brokenTokens.map (⟨·, 1⟩)) := (tokenize_ofList _).trans rfl
  have loops (next : Nat) : (⟨{}, next⟩ : Session).compile loopingSource =
      (⟨{}, next⟩ : Session).compileTokens (loopingTokens.map (⟨·, 1⟩)) := by
    rw [Session.compile, readLooping]
  have breaks : (⟨{}, 1⟩ : Session).compile brokenSource =
      (⟨{}, 1⟩ : Session).compileTokens (brokenTokens.map (⟨·, 1⟩)) := by
    rw [Session.compile, readBroken]
  have first : ((⟨{}, 0⟩ : Session).compile loopingSource).2 = ⟨{}, 1⟩ := congrArg Prod.snd (loops 0)
  have second : ((⟨{}, 1⟩ : Session).compile brokenSource).2 = ⟨{}, 2⟩ := congrArg Prod.snd breaks
  have stops : ((⟨{}, 1⟩ : Session).compile brokenSource).1 =
      .error (.unexpected 1 (.described "identifier") none) := congrArg Prod.fst breaks
  have calls : (⟨{}, 0⟩ : Session).compilations [loopingSource, brokenSource, loopingSource] =
      [⟨⟨{}, 0⟩, loopingSource⟩, ⟨⟨{}, 1⟩, brokenSource⟩, ⟨⟨{}, 2⟩, loopingSource⟩] := by
    rw [compilations, compilations, compilations, compilations, first, second]
  rw [calls] at closed refused ⊢
  refine ⟨?_, ?_, ?_⟩
  · simp only [List.map_cons, List.map_nil, Compilation.result, loops, breaks]
    rfl
  · intro compiled member
    obtain ⟨call, inCalls, result⟩ := List.mem_filterMap.mp member
    refine closed call inCalls compiled ?_
    cases accepted : call.result with
    | ok other =>
        rw [accepted] at result
        exact congrArg _ (Option.some.inj result)
    | error error =>
        rw [accepted] at result
        exact absurd result.symm (Option.some_ne_none compiled)
  · have taken := (refused ⟨⟨{}, 1⟩, brokenSource⟩ (by simp) _ stops).2
    refine taken 1 (Nat.le_refl 1) ?_ "WHILE_EXP1" (.inr (.inr (.inl rfl)))
    rw [Compilation.after, second]
    exact Nat.lt_succ_self 1

end Session

end JackToolchain.Jack

import JackToolchain.Build
import JackToolchain.Proofs.Disk.FileTree

/-!
# Actions on worlds

What an action leaves as it is, and what may be expected of its result.

## Main Definitions

* `World.run` — what becomes of an action.
* `World.Reads` — an action that only looks at a tree and prints what it does.
* `World.Loads` — such an action that may fail, with what may be expected of it if it does not.

## Main Statements

* `World.Reads.bind`, `World.Loads.bind` — one action after another.
* `World.Loads.attempt` — an operation that only looks may be expected to give what it gives on the tree.
-/

namespace JackToolchain.Disk.World

variable {α β ε ε' : Type} {tree : FileTree}

/-! ## Running -/

/-- What becomes of an action that may fail, and the world behind it. -/
def run (action : ExceptT ε (StateM World) α) (world : World) : Except ε α × World :=
  StateT.run (ExceptT.run action) world

/-- An action is followed by the next one. -/
theorem run_bind_of {action : StateM World α} {next : α → StateM World β} {world between : World} {value : α}
    (ran : action.run world = (value, between)) : (action >>= next).run world = (next value).run between := by
  rw [StateT.run_bind, ran]
  rfl

section Running

variable {action : ExceptT ε (StateM World) α} {next : α → ExceptT ε (StateM World) β}
  {world between : World}

/-- An action that succeeds is followed by the next one… -/
theorem run_bind_of_ok {value : α} (ran : run action world = (.ok value, between)) :
    run (action >>= next) world = run (next value) between := by
  unfold run at ran ⊢
  rw [ExceptT.run_bind, StateT.run_bind, ran]
  rfl

/-- …and one that fails is not. -/
theorem run_bind_of_error {error : ε} (ran : run action world = (.error error, between)) :
    run (action >>= next) world = (.error error, between) := by
  unfold run at ran ⊢
  rw [ExceptT.run_bind, StateT.run_bind, ran]
  rfl

/-- **A change** replaces the tree, unless it fails. -/
theorem run_change (operation : FileTree → Except DiskError FileTree) (world : World) :
    (change operation).run world = match operation world.tree with
      | .ok tree => (.ok (), { world with tree })
      | .error error => (.error error, world) := by
  have reads : (change operation).run world = StateT.run
      (match operation world.tree with
        | .ok tree => do
          set { world with tree }
          return .ok ()
        | .error error => return .error error : StateM World (Except DiskError Unit)) world := rfl
  rw [reads]
  cases operation world.tree <;> rfl

/-- An operation whose failure has a meaning. -/
theorem run_attempt_of {operation : StateM World (Except DiskError α)} {result : Except DiskError α}
    (meaning : DiskError → ε) (ran : operation.run world = (result, between)) :
    run (attempt operation meaning) world = (result.mapError meaning, between) := by
  have unfolded : run (attempt operation meaning) world =
      ((operation.run world).1.mapError meaning, (operation.run world).2) := rfl
  rw [unfolded, ran]

/-- A change whose failure has a meaning. -/
theorem run_attempt_change (operation : FileTree → Except DiskError FileTree) (meaning : DiskError → ε)
    (world : World) :
    run (attempt (change operation) meaning) world = match operation world.tree with
      | .ok tree => (.ok (), { world with tree })
      | .error error => (.error (meaning error), world) := by
  rw [run_attempt_of meaning (run_change operation world)]
  cases operation world.tree <;> rfl

end Running

/-! ## Reading -/

/-- **Reading.**  The action leaves the tree as it is and complains of nothing, and its result is as
expected. -/
def Reads (tree : FileTree) (action : StateM World α) (expected : α → Prop) : Prop :=
  ∀ world : World, world.tree = tree →
    ∃ result said, action.run world = (result, { world with said }) ∧ expected result

namespace Reads

variable {action : StateM World α} {expected other : α → Prop}

theorem mono (reads : Reads tree action expected) (weaker : ∀ a, expected a → other a) :
    Reads tree action other := by
  intro world same
  obtain ⟨result, said, ran, known⟩ := reads world same
  exact ⟨result, said, ran, weaker result known⟩

theorem pure {value : α} (known : expected value) : Reads tree (pure value) expected :=
  fun world _ => ⟨value, world.said, rfl, known⟩

/-- **One action after another.** -/
theorem bind {next : α → StateM World β} {goal : β → Prop} (reads : Reads tree action expected)
    (behind : ∀ a, expected a → Reads tree (next a) goal) : Reads tree (action >>= next) goal := by
  intro world same
  obtain ⟨between, said, ran, known⟩ := reads world same
  obtain ⟨result, said', ranToo, reached⟩ := behind between known { world with said } same
  refine ⟨result, said', ?_, reached⟩
  rw [StateT.run_bind, ran]
  exact ranToo

/-- An operation that only looks gives what it gives on the tree. -/
theorem look (operation : FileTree → α) : Reads tree (World.look operation) (· = operation tree) :=
  fun world same => ⟨_, world.said, rfl, congrArg operation same⟩

theorem say (line : String) : Reads tree (World.disk.say line) fun _ => True :=
  fun world _ => ⟨(), world.said ++ [line], rfl, trivial⟩

theorem isFile (path : Path) : Reads tree (World.disk.isFile path) fun _ => True := by
  refine (look (·.kind path)).bind fun kind _ => ?_
  split
  · exact pure trivial
  · exact pure trivial

/-- What is kept of a list is expected of its members. -/
theorem filterMapM {f : α → StateM World (Option β)} {expected : α → β → Prop} {list : List α}
    (each : ∀ a, Reads tree (f a) fun result => ∀ b ∈ result, expected a b) :
    Reads tree (list.filterMapM f) fun kept =>
      ∃ sources, sources.Sublist list ∧ List.Forall₂ expected sources kept := by
  induction list with
  | nil => exact pure ⟨[], .refl _, .nil⟩
  | cons a rest ih =>
      rw [List.filterMapM_cons]
      refine (each a).bind fun result known => ?_
      cases result with
      | none => exact ih.mono fun kept ⟨sources, part, all⟩ => ⟨sources, part.cons a, all⟩
      | some b =>
          refine ih.bind fun kept ⟨sources, part, all⟩ => pure ?_
          exact ⟨a :: sources, part.cons_cons a, .cons (known b rfl) all⟩

end Reads

/-! ## Loading -/

/-- **Loading.**  The action reads, and what it gives is as expected, if it does not fail. -/
def Loads (tree : FileTree) (action : ExceptT ε (StateM World) α) (expected : α → Prop) : Prop :=
  Reads tree action.run fun result => ∀ value, result = .ok value → expected value

namespace Loads

variable {action : ExceptT ε (StateM World) α} {expected other : α → Prop}

theorem mono (loads : Loads tree action expected) (weaker : ∀ a, expected a → other a) :
    Loads tree action other :=
  Reads.mono loads fun _ known value same => weaker value (known value same)

theorem pure {value : α} (known : expected value) :
    Loads tree (pure value : ExceptT ε (StateM World) α) expected := by
  refine Reads.pure fun _ same => ?_
  exact Except.ok.inj same ▸ known

theorem throw (error : ε) : Loads tree (throw error : ExceptT ε (StateM World) α) expected :=
  Reads.pure fun _ same => absurd same nofun

/-- **One action after another.** -/
theorem bind {next : α → ExceptT ε (StateM World) β} {goal : β → Prop}
    (loads : Loads tree action expected) (behind : ∀ a, expected a → Loads tree (next a) goal) :
    Loads tree (action >>= next) goal := by
  unfold Loads
  rw [ExceptT.run_bind]
  refine Reads.bind loads fun result known => ?_
  cases result with
  | ok value => exact behind value (known value rfl)
  | error error => exact Reads.pure fun _ same => absurd same nofun

/-- Nothing follows a failure. -/
theorem throw_bind (error : ε) {next : α → ExceptT ε (StateM World) β} {goal : β → Prop} :
    Loads tree (MonadExcept.throw error >>= next) goal := by
  have thrown : Loads tree (MonadExcept.throw error : ExceptT ε (StateM World) α) fun _ => False :=
    throw error
  exact thrown.bind fun _ => False.elim

/-- An action that cannot fail. -/
theorem lift {action : StateM World α} (reads : Reads tree action expected) :
    Loads tree (ExceptT.lift action : ExceptT ε (StateM World) α) expected := by
  unfold Loads
  rw [ExceptT.run_lift, ← bind_pure_comp]
  refine reads.bind fun value known => Reads.pure fun _ same => ?_
  exact Except.ok.inj same ▸ known

/-- **An operation** that only looks gives what it gives on the tree. -/
theorem attempt (operation : FileTree → Except DiskError α) (meaning : DiskError → ε) :
    Loads tree (attempt (World.look operation) meaning) fun value => operation tree = .ok value := by
  refine (Reads.look operation).bind fun result same => Reads.pure fun value ok => ?_
  exact same ▸ mapError_eq_ok ok

/-- Putting the cause of a failure differently does not matter. -/
theorem adapt (loads : Loads tree action expected) (reword : ε → ε') :
    Loads tree (action.adapt reword) expected := by
  have mapped : (action.adapt reword).run = Except.mapError reword <$> action.run := rfl
  unfold Loads
  rw [mapped, ← bind_pure_comp]
  exact Reads.bind loads fun result known => Reads.pure fun value ok => known value (mapError_eq_ok ok)

theorem tell (verbose : Bool) (line : String) :
    Loads tree (tell World.disk verbose line : ExceptT ε (StateM World) Unit) fun _ => True := by
  unfold JackToolchain.tell
  split
  · exact lift (Reads.say line)
  · exact pure trivial

/-- **A list** of which each member is loaded. -/
theorem mapM {f : α → ExceptT ε (StateM World) β} {expected : α → β → Prop} {list : List α}
    (each : ∀ a, Loads tree (f a) (expected a)) :
    Loads tree (list.mapM f) fun values => List.Forall₂ expected list values := by
  induction list with
  | nil => exact pure .nil
  | cons a rest ih =>
      rw [List.mapM_cons]
      refine (each a).bind fun value known => ?_
      refine ih.bind fun values all => pure ?_
      exact .cons known all

end Loads

end JackToolchain.Disk.World

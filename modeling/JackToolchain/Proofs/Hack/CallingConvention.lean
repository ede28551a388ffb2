import JackToolchain.Proofs.Hack.Calls
import JackToolchain.Proofs.Hack.Returns

/-!
# The calling convention

The code of a call, of a function header and of a return agree on the frame between them.

## Main Definitions

* `KeepsFrame` — what a body has to leave alone.
* `Resumed` — what the caller finds behind the call.

## Main Statements

* `call_and_return_agree` — a call leads to the body, and its return behind the call.

## Design Notes

Nothing is assumed about the way from the beginning of a body to its return; a body is any store that
has kept the frame and the two registers by which the frame is found again.  Function and return
address lie in the 32768 words of the program memory: an address instruction can hold no other
position.
-/

namespace JackToolchain.Hack

open Vm Line

/-! ## There and back -/

/-- What a body has to leave alone: the frame and the registers of its segments. -/
def KeepsFrame (entered body : Memory) (s : Nat) : Prop :=
  ∀ address, address = 1 ∨ address = 2 ∨ (s ≤ address ∧ address < s + 5) →
    body address = entered address

/-- **What the caller finds**: the result behind its stack, its registers, and below the arguments what
the body left there. -/
structure Resumed (before body resumed : Memory) (s argumentCount : Nat) (result : Word) :
    Prop where
  pointer : resumed 0 = BitVec.ofNat 16 (s - argumentCount + 1)
  result : resumed (s - argumentCount) = result
  registers : ∀ register ∈ [1, 2, 3, 4], resumed register = before register
  unchanged : ∀ address, 16 ≤ address → address < s - argumentCount →
    resumed address = body address

/-- A return makes what the caller finds of a body that has kept the frame. -/
theorem resumed_left {before body : Memory} {values : String → Nat}
    {n s p argumentCount localCount : Nat} (pointer : before 0 = BitVec.ofNat 16 s)
    (below : argumentCount + 16 ≤ s) (room : s + 5 + localCount ≤ 32768)
    (keeps : KeepsFrame (before.enter values n argumentCount localCount) body s)
    (returnable : Returnable body s (s - argumentCount) p) :
    Resumed before body (body.left.restoreAll [4, 3, 2, 1]) s argumentCount (body (p - 1)) where
  pointer := by
    rw [Memory.restoreAll_apply_of_not_mem (by decide) (by decide), returnable.left_pointer]
  result := by
    rw [Memory.restoreAll_apply_of_not_mem (by omega) (by simp; omega), returnable.left_result]
  registers register member := by
    have kept (i : Nat) (small : i < 5) : body (s + i) = (frame values before n)[i] := by
      rw [keeps (s + i) (.inr (.inr ⟨by omega, by omega⟩)),
        enter_frame values n pointer below room small]
    -- the registers come back in the opposite order
    have back (i : Nat) (positive : 0 < i) (small : i < 5) :
        body.left.restoreAll [4, 3, 2, 1] i = (frame values before n)[i] := by
      have restored := returnable.restored (by omega : 4 - i < 4)
      rwa [Nat.sub_sub_self (by omega), (by omega : s + 4 - (4 - i) = s + i), kept i small]
        at restored
    simp only [List.mem_cons, List.not_mem_nil, or_false] at member
    rcases member with rfl | rfl | rfl | rfl
    · exact back 1 (by decide) (by decide)
    · exact back 2 (by decide) (by decide)
    · exact back 3 (by decide) (by decide)
    · exact back 4 (by decide) (by decide)
  unchanged address high lower := by
    rw [Memory.restoreAll_apply_of_not_mem (by omega) (by simp; omega),
      returnable.left_stack high (by omega)]

/-- **The calling convention.**  A call and the header of its function lead to the body, which finds its
arguments, its locals and everything below as they should be.  Whatever the body does, if it keeps the
frame and the registers of its segments, its return goes behind the call, where the caller finds the
result in place of the arguments and its own registers. -/
theorem call_and_return_agree {caller callee returning : Lowering} {name : String}
    {argumentCount localCount : Nat} {callLines functionLines returnLines : List Line}
    {rom : Nat → Word} {values : String → Nat} {callStart functionStart returnStart : Nat}
    (store : Store) {s : Nat}
    (emitsCall : caller.Emits (.call name argumentCount) callLines)
    (emitsFunction : callee.Emits (.function name localCount) functionLines)
    (emitsReturn : returning.Emits .return_ returnLines)
    (standard : Standard values)
    (loadedCall : Loaded rom values callStart callLines)
    (loadedFunction : Loaded rom values functionStart functionLines)
    (loadedReturn : Loaded rom values returnStart returnLines)
    (returnSmall : values (returnAddress caller.calls) < 32768)
    (functionSmall : values name < 32768)
    (pointer : store.memory 0 = BitVec.ofNat 16 s)
    (below : argumentCount + 16 ≤ s)
    (room : s + 5 + localCount ≤ 32768) :
    values (returnAddress caller.calls) = callStart + size callLines ∧
    ∃ entered : Store,
      Reaches rom ⟨store, callStart⟩ ⟨entered, functionStart + size functionLines⟩ ∧
      Entered store.memory entered.memory s argumentCount localCount ∧
      ∀ (body : Store) (p : Nat), KeepsFrame entered.memory body.memory s →
        body.memory 0 = BitVec.ofNat 16 p → s + 5 < p → p ≤ 32768 →
        ∃ resumed : Store,
          Reaches rom ⟨body, returnStart⟩ ⟨resumed, values (returnAddress caller.calls)⟩ ∧
          Resumed store.memory body.memory resumed.memory s argumentCount
            (body.memory (p - 1)) := by
  obtain ⟨callCode, foundCall, rfl⟩ := emitsCall.eq_block
  obtain ⟨functionCode, foundFunction, rfl⟩ := emitsFunction.eq_block
  obtain ⟨returnCode, foundReturn, rfl⟩ := emitsReturn.eq_block
  obtain rfl := Option.some.inj foundFunction
  obtain rfl := Option.some.inj foundReturn
  replace loadedCall := Lowering.loaded_of_notes loadedCall
  replace loadedFunction := Lowering.loaded_of_notes loadedFunction
  replace loadedReturn := Lowering.loaded_of_notes loadedReturn
  simp only [size_append, Lowering.size_notes, Nat.zero_add]
  rw [Lowering.block?] at foundCall
  split at foundCall
  · rename_i few
    obtain rfl := Option.some.inj foundCall
    -- the way into the body
    have addressable := addressable_callBlock standard (Nat.le_of_lt_succ returnSmall)
      (Nat.le_of_lt_succ functionSmall) few
    obtain ⟨returnAt, called, ranCall, afterCall⟩ :=
      run_callBlock standard store loadedCall addressable pointer (by omega) (by omega)
    have calledPointer : called.memory 0 = BitVec.ofNat 16 (s + 5) := by
      rw [afterCall]
      exact link_pointer values caller.calls pointer
    obtain ⟨functionAt, entered, ranFunction, afterFunction⟩ :=
      run_functionBlock standard called loadedFunction calledPointer (by omega) room
    have enters : entered.memory =
        store.memory.enter values caller.calls argumentCount localCount := by
      rw [afterFunction, afterCall]
      rfl
    rw [functionAt] at ranCall
    refine ⟨returnAt, entered, ranCall.trans ranFunction, ?_, ?_⟩
    · rw [enters]
      exact entered_enter values caller.calls pointer below room
    · -- the way back: the frame is what the call has made, because the body has kept it
      intro body p keeps bodyPointer above bodyRoom
      rw [enters] at keeps
      have arrives := entered_enter values caller.calls pointer below room
      have returnable : Returnable body.memory s (s - argumentCount) p :=
        { locals := (keeps 1 (.inl rfl)).trans arrives.locals
          arguments := (keeps 2 (.inr (.inl rfl))).trans arrives.arguments
          pointer := bodyPointer
          high := by omega
          below := by omega
          above
          room := bodyRoom }
      have returns : body.memory s =
          BitVec.ofNat 16 (values (returnAddress caller.calls)) := by
        rw [keeps s (.inr (.inr ⟨Nat.le_refl s, by omega⟩))]
        exact enter_frame values caller.calls pointer below room (by decide : 0 < 5)
      obtain ⟨resumed, ranReturn, afterReturn⟩ := run_returnBlock standard body loadedReturn
        returnable returns (Nat.le_of_lt_succ returnSmall)
      refine ⟨resumed, ranReturn, ?_⟩
      rw [afterReturn]
      exact resumed_left pointer below room keeps returnable
  · exact absurd foundCall (by simp)

/-- The values of the predefined symbols, of the first return address and of a function. -/
private def tripValues (name : String) : Nat :=
  ((predefinedList ++ [(returnAddress 0, 47), ("Main.f", 47)]).lookup name).getD 0

/-- A call without arguments, and a function that returns its only local variable. -/
private def tripLines : List Line :=
  callBlock 0 "Main.f" 0 ++ (functionBlock "Main.f" 1 ++ returnBlock)

/-- A memory with an empty stack at 256. -/
private def tripMemory : Memory :=
  Function.update (Function.update (Function.update (fun _ => 0) 0 256) 1 300) 2 310

/-- The result takes the cell of the return address. -/
theorem empty_function_returns_zero :
    ∃ resumed : Store,
      Reaches (romOf (words tripValues tripLines)) ⟨⟨0, 0, tripMemory⟩, 0⟩ ⟨resumed, 47⟩ ∧
        resumed.memory 0 = 257 ∧ resumed.memory 256 = 0 ∧ resumed.memory 1 = 300 := by
  have emitsCall : ({ annotate := false } : Lowering).Emits (.call "Main.f" 0)
      (callBlock 0 "Main.f" 0) := ⟨1, _, rfl, rfl⟩
  have emitsFunction : ({ annotate := false } : Lowering).Emits (.function "Main.f" 1)
      (functionBlock "Main.f" 1) := ⟨1, _, rfl, rfl⟩
  have emitsReturn : ({ annotate := false } : Lowering).Emits .return_ returnBlock :=
    ⟨1, _, rfl, rfl⟩
  have placed : Placed tripValues 0 tripLines := by decide
  have loaded := loaded_romOf [] [] placed
  rw [List.append_nil, List.nil_append, tripLines, loaded_append, loaded_append] at loaded
  obtain ⟨loadedCall, loadedFunction, loadedReturn⟩ := loaded
  have pointer : (⟨0, 0, tripMemory⟩ : Store).memory 0 = BitVec.ofNat 16 256 := rfl
  obtain ⟨-, entered, called, arrives, returns⟩ :=
    call_and_return_agree ⟨0, 0, tripMemory⟩ emitsCall emitsFunction emitsReturn
      (by decide) loadedCall loadedFunction loadedReturn (by decide)
      (by decide) pointer (by decide) (by decide)
  obtain ⟨resumed, returned, resumes⟩ := returns entered 262 (fun _ _ => rfl) arrives.pointer
    (by decide) (by decide)
  have behind : tripValues (returnAddress 0) = 47 := by decide
  rw [behind] at returned
  refine ⟨resumed, called.trans returned, resumes.pointer, ?_,
    (resumes.registers 1 (by decide)).trans rfl⟩
  exact resumes.result.trans (arrives.cleared 0 (by decide))

end JackToolchain.Hack

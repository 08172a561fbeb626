import GoldenRom.Proofs.Runs

/-!
# Machines after any calls

Whoever holds a machine can load, step, run and reset it, in any order and whatever comes of
each.  A property of all machines that can be met is proved once for each call:
`afterCalls_induction` asks what a load that fits, a step that succeeds and a reset preserve.
Runs need no case of their own, being sequences of steps, and calls that fail need none either,
since they hand back the machine as it was.

## Main definitions

* `Transition.final`: what a transition leaves behind, whether it succeeds or fails.
* `Call`, `Call.perform`: the four calls, with what each returns.
* `Machine.afterCalls`: the machine after a sequence of calls.
-/

namespace GoldenRom

/-- What a transition leaves behind, whether it succeeds or fails. -/
def Transition.final {σ α : Type} (transition : Transition σ α) (before : σ) : σ :=
  match transition before with
  | .ok _ after => after
  | .error _ after => after

theorem Transition.final_of_ok {σ α : Type} {transition : Transition σ α} {before after : σ}
    {result : α} (hrun : transition before = .ok result after) :
    Transition.final transition before = after := by
  simp only [final, hrun]

theorem Transition.final_of_error {σ α : Type} {transition : Transition σ α}
    {before after : σ} {fault : Fault} (hrun : transition before = .error fault after) :
    Transition.final transition before = after := by
  simp only [final, hrun]

/-- A call that the holder of a machine can make. -/
inductive Call where
  /-- Load a ROM. -/
  | load (rom : ByteArray)
  /-- Execute one instruction. -/
  | step
  /-- Step to an address, within a limit. -/
  | run (target : Word) (limit : Nat)
  /-- Put the state back to the initial one. -/
  | reset

/-- The call as a transition of the machine.  Only a run has something to return. -/
def Call.perform {γ : Type} [WordSource γ] : Call → Transition (Machine γ) (Option RunEnd)
  | load rom => do
      Machine.loadRom rom
      return none
  | step => do
      Machine.step
      return none
  | run target limit => do
      return some (← Machine.runUntil target limit)
  | reset => do
      modify Machine.reset
      return none

/-- A load changes memory only. -/
theorem State.pc_loadRom {s t : State} {rom : ByteArray} (hload : s.loadRom rom = .ok t) :
    t.pc = s.pc := by
  rw [loadRom] at hload
  split at hload
  · obtain rfl := Except.ok.inj hload
    rfl
  · cases hload

namespace Machine

variable {γ : Type} [WordSource γ]

/-- The machine after a sequence of calls, whatever each of them returns. -/
def afterCalls (machine : Machine γ) (calls : List Call) : Machine γ :=
  calls.foldl (fun machine call => Transition.final call.perform machine) machine

theorem afterCalls_cons (machine : Machine γ) (call : Call) (rest : List Call) :
    machine.afterCalls (call :: rest) =
      (Transition.final call.perform machine).afterCalls rest := rfl

theorem afterCalls_append (machine : Machine γ) (calls later : List Call) :
    machine.afterCalls (calls ++ later) = (machine.afterCalls calls).afterCalls later :=
  List.foldl_append

theorem afterCalls_concat (machine : Machine γ) (calls : List Call) (call : Call) :
    machine.afterCalls (calls ++ [call]) =
      Transition.final call.perform (machine.afterCalls calls) :=
  afterCalls_append machine calls [call]

/-! ## What each call leaves behind -/

omit [WordSource γ] in
/-- Returning something else leaves the same machine behind. -/
theorem final_bind_pure {α β : Type} (transition : Transition (Machine γ) α) (f : α → β)
    (machine : Machine γ) :
    Transition.final (do return f (← transition)) machine =
      Transition.final transition machine := by
  simp only [Transition.final, bind, EStateM.bind, pure, EStateM.pure]
  cases transition machine <;> rfl

theorem final_perform_step (machine : Machine γ) :
    Transition.final Call.step.perform machine = Transition.final step machine :=
  final_bind_pure step (fun _ => none) machine

theorem final_perform_run (target : Word) (limit : Nat) (machine : Machine γ) :
    Transition.final (Call.run target limit).perform machine =
      Transition.final (runUntil target limit) machine :=
  final_bind_pure (runUntil target limit) some machine

theorem final_perform_reset (machine : Machine γ) :
    Transition.final Call.reset.perform machine = machine.reset := rfl

/-- A load that does not fit changes nothing. -/
theorem final_perform_load (rom : ByteArray) (machine : Machine γ) :
    Transition.final (Call.load rom).perform machine = match machine.state.loadRom rom with
      | .ok state => { machine with state }
      | .error _ => machine := by
  rw [Call.perform, final_bind_pure (loadRom rom) (fun _ => none) machine,
    Transition.final, loadRom]
  cases machine.state.loadRom rom <;> rfl

omit [WordSource γ] in
theorem loadRom_eq_ok_iff {before after : Machine γ} {rom : ByteArray} :
    loadRom rom before = .ok () after ↔ ∃ state, before.state.loadRom rom = .ok state ∧
      after = { before with state } := by
  rw [loadRom]
  cases before.state.loadRom rom with
  | ok state => simp [eq_comm]
  | error fault => simp

omit [WordSource γ] in
/-- A ROM that fits into memory can be loaded. -/
theorem exists_loadRom_eq_ok {rom : ByteArray} (hfits : rom.size ≤ romCapacity)
    (machine : Machine γ) :
    ∃ loaded, loadRom rom machine = .ok () loaded := by
  cases hload : machine.state.loadRom rom with
  | ok state => exact ⟨_, loadRom_eq_ok_iff.2 ⟨state, hload, rfl⟩⟩
  | error fault => exact absurd (State.loadRom_eq_error_iff.1 hload).1 (Nat.not_lt.2 hfits)

omit [WordSource γ] in
theorem pc_loadRom {before after : Machine γ} {rom : ByteArray}
    (hload : loadRom rom before = .ok () after) : after.state.pc = before.state.pc := by
  obtain ⟨state, hstate, rfl⟩ := loadRom_eq_ok_iff.1 hload
  exact State.pc_loadRom hstate

theorem final_perform_load_of_ok {machine loaded : Machine γ} {rom : ByteArray}
    (hload : loadRom rom machine = .ok () loaded) :
    Transition.final (Call.load rom).perform machine = loaded := by
  rw [Call.perform, final_bind_pure (loadRom rom) (fun _ => none) machine,
    Transition.final_of_ok hload]

/-- A step that fails changes nothing. -/
theorem final_step (machine : Machine γ) :
    step machine = .ok () (Transition.final step machine) ∨
      Transition.final step machine = machine := by
  cases hstep : step machine with
  | ok result after => exact Or.inl (congrArg _ (Transition.final_of_ok hstep).symm)
  | error fault after =>
      obtain ⟨_, _, _, rfl⟩ := step_eq_error_iff.1 hstep
      exact Or.inr (Transition.final_of_error hstep)

/-- A run leaves behind a machine that some number of successful steps produces. -/
theorem exists_afterSteps_final_runUntil (target : Word) (limit : Nat) (machine : Machine γ) :
    ∃ n, machine.afterSteps n = some (Transition.final (runUntil target limit) machine) := by
  have hrun : machine.RunsTo target limit (runUntil target limit machine) :=
    runUntil_eq_iff.1 rfl
  rw [Transition.final]
  cases hresult : runUntil target limit machine with
  | ok ending final =>
      rw [hresult] at hrun
      cases hrun with
      | halted _ hfinal _ _ => exact ⟨_, hfinal⟩
      | exhausted hfinal _ => exact ⟨_, hfinal⟩
  | error fault final =>
      rw [hresult] at hrun
      cases hrun with
      | faulted _ hlast _ hfault =>
          obtain ⟨_, _, _, rfl⟩ := step_eq_error_iff.1 hfault
          exact ⟨_, hlast⟩

/-! ## Induction over calls -/

/-- What successful steps preserve holds after any number of them. -/
theorem afterSteps_induction {P : Machine γ → Prop} {start final : Machine γ} {n : Nat}
    (hstart : P start)
    (hstep : ∀ before after, P before → step before = .ok () after → P after)
    (hfinal : start.afterSteps n = some final) : P final := by
  induction n generalizing final with
  | zero =>
      obtain rfl := Option.some.inj hfinal
      exact hstart
  | succ n ih =>
      obtain ⟨last, hlast, hlastStep⟩ := afterSteps_succ_eq_some_iff.1 hfinal
      exact hstep last final (ih hlast) hlastStep

/-- What a load that fits, a step that succeeds and a reset preserve, every call preserves. -/
theorem final_perform_induction {P : Machine γ → Prop}
    (hload : ∀ machine rom state, P machine → machine.state.loadRom rom = .ok state →
      P { machine with state })
    (hstep : ∀ before after, P before → step before = .ok () after → P after)
    (hreset : ∀ machine, P machine → P machine.reset) (call : Call) {machine : Machine γ}
    (hmachine : P machine) :
    P (Transition.final call.perform machine) := by
  cases call with
  | load rom =>
      rw [final_perform_load]
      cases hrom : machine.state.loadRom rom with
      | ok state => exact hload machine rom state hmachine hrom
      | error fault => exact hmachine
  | step =>
      rw [final_perform_step]
      rcases final_step machine with hok | hsame
      · exact hstep machine _ hmachine hok
      · rwa [hsame]
  | run target limit =>
      -- Also a run that fails leaves behind what successful steps have produced.
      rw [final_perform_run]
      obtain ⟨n, hfinal⟩ := exists_afterSteps_final_runUntil target limit machine
      exact afterSteps_induction hmachine hstep hfinal
  | reset => exact hreset machine hmachine

/-- **Induction over calls.**  What holds of a machine and is preserved by a load that fits, a
step that succeeds and a reset holds after every sequence of calls. -/
theorem afterCalls_induction {P : Machine γ → Prop} {start : Machine γ} (hstart : P start)
    (hload : ∀ machine rom state, P machine → machine.state.loadRom rom = .ok state →
      P { machine with state })
    (hstep : ∀ before after, P before → step before = .ok () after → P after)
    (hreset : ∀ machine, P machine → P machine.reset) (calls : List Call) :
    P (start.afterCalls calls) := by
  induction calls generalizing start with
  | nil => exact hstart
  | cons call rest ih =>
      rw [afterCalls_cons]
      exact ih (final_perform_induction hload hstep hreset call hstart)

end Machine

end GoldenRom

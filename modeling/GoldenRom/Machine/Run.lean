import GoldenRom.Machine.Execution

/-!
# Runs

A run steps a machine until the program counter reaches an address, a step fails, or a limit on
the number of steps is used up.  The address is looked at after each step only, so a run that
starts on it takes at least one step.

## Main definitions

* `Transition.stepUntil`: the loop, for any kind of step.
* `Machine.runUntil`: the run, with the number of steps taken and whether the address was
  reached.
* `Machine.runRom`: a ROM loaded and run to the address by which programs say that they are
  done.
-/

namespace GoldenRom

/-- Where a program jumps to say that it is done. -/
def haltAddress : Word := 0x111

/-- The number of steps that a program is given. -/
def stepLimit : Nat := 10000

/-- How a run that did not fail has ended. -/
structure RunEnd where
  /-- The number of steps taken. -/
  cycles : Nat
  /-- Whether the address was reached. -/
  halted : Bool
deriving DecidableEq

/-- Steps until a state is arrived at, in at most `limit` further steps, `cycles` of them having
been taken before. -/
def Transition.stepUntil {σ : Type} (step : Transition σ Unit) (arrived : σ → Prop)
    [DecidablePred arrived] (cycles : Nat) : Nat → Transition σ RunEnd
  | 0 => pure ⟨cycles, false⟩
  | limit + 1 => do
      step
      if arrived (← get) then
        return ⟨cycles + 1, true⟩
      else
        stepUntil step arrived (cycles + 1) limit

theorem Transition.stepUntil_succ {σ : Type} (step : Transition σ Unit) (arrived : σ → Prop)
    [DecidablePred arrived] (cycles limit : Nat) (before : σ) :
    stepUntil step arrived cycles (limit + 1) before = match step before with
      | .error fault after => .error fault after
      | .ok () after =>
          if arrived after then .ok ⟨cycles + 1, true⟩ after
          else stepUntil step arrived (cycles + 1) limit after := by
  rw [stepUntil]
  simp only [bind, EStateM.bind]
  cases step before with
  | error fault after => rfl
  | ok _ after =>
      show (if arrived after then pure ⟨cycles + 1, true⟩
        else stepUntil step arrived (cycles + 1) limit : Transition σ RunEnd) after = _
      dsimp only
      split <;> rfl

namespace Machine

variable {γ : Type} [WordSource γ]

/-- A run of at most `limit` further steps, `cycles` of them having been taken before. -/
def runFrom (target : Word) (cycles limit : Nat) : Transition (Machine γ) RunEnd :=
  Transition.stepUntil step (fun machine => machine.state.pc = target) cycles limit

/-- Steps a machine until the program counter is at `target` or `limit` steps have been
taken. -/
def runUntil (target : Word) (limit : Nat) : Transition (Machine γ) RunEnd :=
  runFrom target 0 limit

/-- Loads a ROM and runs it to the halt address within a number of steps. -/
def runRom (rom : ByteArray) (limit : Nat) : Transition (Machine γ) RunEnd := do
  loadRom rom
  runUntil haltAddress limit

theorem runFrom_succ (target : Word) (cycles limit : Nat) (machine : Machine γ) :
    runFrom target cycles (limit + 1) machine = match step machine with
      | .error fault machine => .error fault machine
      | .ok () machine =>
          if machine.state.pc = target then .ok ⟨cycles + 1, true⟩ machine
          else runFrom target (cycles + 1) limit machine := by
  rw [runFrom, Transition.stepUntil_succ]
  cases step machine <;> rfl

end Machine

end GoldenRom

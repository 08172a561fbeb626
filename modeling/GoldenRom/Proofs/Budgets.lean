import GoldenRom.Proofs.Runs

/-!
# Budgets of steps

The limit of a run is a budget of steps.  What a run returns, and the machine that it leaves
behind, are told by the sequence of machines that successful steps produce and by the limit.  A
budget can be split: a run that has used up a first part goes on with the rest as if it had
never stopped.  And a run that comes to its target has no use for what is left, so a larger
budget changes nothing.

## Main definitions

* `RunEnd.after`: the end of a run that has gone on from an earlier one.
* `Machine.runInTwo`: a run with a second budget for the case that the first is used up.

## Main results

* `Machine.runUntil_eq_halted_iff`, `Machine.runUntil_eq_exhausted_iff`,
  `Machine.runUntil_eq_error_iff`: when a run ends in each of its three ways.
* `Machine.runUntil_add`: a budget in two parts.
* `Machine.budgets_compose`: the whole meaning of a limit.
-/

namespace GoldenRom

/-- How a run has ended if `cycles` steps had been taken before it began. -/
def RunEnd.after (cycles : Nat) (ending : RunEnd) : RunEnd where
  cycles := cycles + ending.cycles
  halted := ending.halted

namespace Machine

variable {γ : Type} [WordSource γ] {start final : Machine γ} {target : Word} {limit : Nat}

/-! ## The three endings -/

/-- A run halts after the first step that ends at the target, if the limit allows that step. -/
theorem runUntil_eq_halted_iff {cycles : Nat} :
    runUntil target limit start = .ok ⟨cycles, true⟩ final ↔
      1 ≤ cycles ∧ cycles ≤ limit ∧ start.afterSteps cycles = some final ∧
        final.state.pc = target ∧
        start.StaysAway target (cycles - 1) := by
  rw [runUntil_eq_iff]
  constructor
  · intro hrun
    cases hrun with
    | @halted n _ hlimit hfinal haway hpc => exact ⟨Nat.succ_pos n, hlimit, hfinal, hpc, haway⟩
  · rintro ⟨hpos, hlimit, hfinal, hpc, haway⟩
    obtain ⟨n, rfl⟩ : ∃ n, cycles = n + 1 := ⟨cycles - 1, by omega⟩
    exact .halted hlimit hfinal haway hpc

/-- A run is stopped by its limit if all steps succeed and none ends at the target. -/
theorem runUntil_eq_exhausted_iff {cycles : Nat} :
    runUntil target limit start = .ok ⟨cycles, false⟩ final ↔
      cycles = limit ∧ start.afterSteps limit = some final ∧ start.StaysAway target limit := by
  rw [runUntil_eq_iff]
  constructor
  · intro hrun
    cases hrun with
    | exhausted hfinal haway => exact ⟨rfl, hfinal, haway⟩
  · rintro ⟨rfl, hfinal, haway⟩
    exact .exhausted hfinal haway

/-- A run fails with the first step that fails, if the limit allows that step and none before it
ends at the target.  The machine is left as the last successful step has made it. -/
theorem runUntil_eq_error_iff {fault : Fault} :
    runUntil target limit start = .error fault final ↔
      ∃ n, n < limit ∧ start.afterSteps n = some final ∧ start.StaysAway target n ∧
        step final = .error fault final := by
  rw [runUntil_eq_iff]
  constructor
  · intro hrun
    cases hrun with
    | @faulted n last _ _ hlimit hlast haway hfault =>
        obtain ⟨_, _, _, rfl⟩ := step_eq_error_iff.1 hfault
        exact ⟨n, hlimit, hlast, haway, hfault⟩
  · rintro ⟨n, hlimit, hlast, haway, hfault⟩
    exact .faulted hlimit hlast haway hfault

/-! ## Larger limits -/

/-- A run that comes to its target does so within every larger limit. -/
theorem runUntil_eq_halted_of_le {cycles larger : Nat}
    (hrun : runUntil target limit start = .ok ⟨cycles, true⟩ final) (hle : cycles ≤ larger) :
    runUntil target larger start = .ok ⟨cycles, true⟩ final := by
  obtain ⟨hpos, -, hfinal, hpc, haway⟩ := runUntil_eq_halted_iff.1 hrun
  exact runUntil_eq_halted_iff.2 ⟨hpos, hle, hfinal, hpc, haway⟩

/-- A run that fails does so within every larger limit. -/
theorem runUntil_eq_error_of_le {larger : Nat} {fault : Fault}
    (hrun : runUntil target limit start = .error fault final) (hle : limit ≤ larger) :
    runUntil target larger start = .error fault final := by
  obtain ⟨n, hlimit, hlast, haway, hfault⟩ := runUntil_eq_error_iff.1 hrun
  exact runUntil_eq_error_iff.2 ⟨n, Nat.lt_of_lt_of_le hlimit hle, hlast, haway, hfault⟩

/-! ## Budgets in two parts -/

/-- The steps that have been taken before a run are counted, and matter in no other way. -/
theorem runFrom_add (target : Word) (taken cycles limit : Nat) (machine : Machine γ) :
    runFrom target (taken + cycles) limit machine =
      (RunEnd.after taken <$> runFrom target cycles limit) machine := by
  induction limit generalizing cycles machine with
  | zero => rfl
  | succ limit ih =>
      show _ = EStateM.map _ (runFrom target cycles (limit + 1)) machine
      rw [EStateM.map, runFrom_succ, runFrom_succ]
      cases step machine with
      | error fault after => rfl
      | ok result after =>
          by_cases hpc : after.state.pc = target
          · simp only [if_pos hpc]
            rfl
          · simp only [if_neg hpc]
            exact ih (cycles + 1) after

/-- A run with a second budget for the case that the first is used up. -/
def runInTwo (target : Word) (first second : Nat) : Transition (Machine γ) RunEnd := do
  let ending ← runUntil target first
  if ending.halted then
    return ending
  else
    let rest ← runUntil target second
    return rest.after ending.cycles

/-- **A budget can be split.**  A run within the sum of two limits is a run within the first,
which goes on within the second if it has not come to the target. -/
theorem runUntil_add (target : Word) (first second : Nat) :
    runUntil target (first + second) =
      (runInTwo target first second : Transition (Machine γ) RunEnd) := by
  funext start
  rw [runInTwo]
  cases hfirst : runUntil target first start with
  | error fault final =>
      rw [Transition.bind_of_error hfirst]
      exact runUntil_eq_error_of_le hfirst (Nat.le_add_right first second)
  | ok ending middle =>
      rw [Transition.bind_of_ok hfirst]
      obtain ⟨cycles, halted⟩ := ending
      cases halted with
      | true =>
          have hle : cycles ≤ first := (runUntil_eq_halted_iff.1 hfirst).2.1
          exact runUntil_eq_halted_of_le hfirst
            (Nat.le_trans hle (Nat.le_add_right first second))
      | false =>
          -- All steps of the first part have been taken, so the rest begins where it has ended.
          obtain ⟨rfl, hmiddle, haway⟩ := runUntil_eq_exhausted_iff.1 hfirst
          rw [runUntil_eq_runFrom second hmiddle haway, ← Nat.add_zero cycles, runFrom_add,
            Nat.add_zero]
          rfl

/-! ## The meaning of a limit -/

/-- **A run is bounded iteration of the step.**  It halts, is stopped by its limit, or fails,
and each of the three is told by the sequence of successful steps.  Where the sequence starts is
not looked at.  So budgets compose, and a run that comes to its target ends in the same way
within every limit that allows it to. -/
theorem budgets_compose (start : Machine γ) (target : Word) :
    (∀ limit cycles final, runUntil target limit start = .ok ⟨cycles, true⟩ final ↔
        1 ≤ cycles ∧ cycles ≤ limit ∧ start.afterSteps cycles = some final ∧
          final.state.pc = target ∧
          start.StaysAway target (cycles - 1)) ∧
      (∀ limit cycles final, runUntil target limit start = .ok ⟨cycles, false⟩ final ↔
        cycles = limit ∧ start.afterSteps limit = some final ∧ start.StaysAway target limit) ∧
      (∀ limit fault final, runUntil target limit start = .error fault final ↔
        ∃ n, n < limit ∧ start.afterSteps n = some final ∧ start.StaysAway target n ∧
          step final = .error fault final) ∧
      (∀ first second,
        runUntil target (first + second) start = runInTwo target first second start) ∧
      ∀ limit larger cycles final, runUntil target limit start = .ok ⟨cycles, true⟩ final →
        cycles ≤ larger →
        runUntil target larger start = .ok ⟨cycles, true⟩ final := by
  refine ⟨?_, ?_, ?_, ?_, ?_⟩
  · intro limit cycles final
    exact runUntil_eq_halted_iff
  · intro limit cycles final
    exact runUntil_eq_exhausted_iff
  · intro limit fault final
    exact runUntil_eq_error_iff
  · intro first second
    rw [runUntil_add]
  · intro limit larger cycles final hrun hle
    exact runUntil_eq_halted_of_le hrun hle

/-- A machine that stands on an instruction which jumps to itself (`1200`). -/
def turningInPlace : Machine SteppingSource where
  state := (State.initial.setByte 0x200 0x12).setByte 0x201 0x00
  source := ⟨7, 1⟩

/-- Where a run starts is not looked at: the first step comes back to the address, and is the
last one that the limit allows. -/
theorem budgets_compose_when_turning :
    turningInPlace.state.pc = 0x200 ∧
      runUntil 0x200 1 turningInPlace = .ok ⟨1, true⟩ turningInPlace ∧
      runUntil 0x200 10000 turningInPlace = .ok ⟨1, true⟩ turningInPlace := by
  have hword : (turningInPlace.state.wordAt turningInPlace.state.pc.toNat).Encodes
      (.jump 0x200) :=
    ⟨(by decide : (0x200 : Word).toNat < 0x1000), by decide +kernel⟩
  have hpc : turningInPlace.state.pc = 0x200 := rfl
  have hsame : turningInPlace.next (.jump 0x200) = turningInPlace := by
    show (⟨{ turningInPlace.state with pc := 0x200 },
      turningInPlace.source⟩ : Machine SteppingSource) = turningInPlace
    rw [← hpc]
  have hjump : step turningInPlace = .ok () (turningInPlace.next (.jump 0x200)) :=
    step_of_encodes (by decide +kernel) hword rfl
  rw [hsame] at hjump
  have hstep : turningInPlace.afterSteps 1 = some turningInPlace :=
    afterSteps_succ_eq_some_iff.2 ⟨_, afterSteps_zero _, hjump⟩
  have hrun : runUntil 0x200 1 turningInPlace = .ok ⟨1, true⟩ turningInPlace :=
    runUntil_eq_halted_iff.2 ⟨Nat.le_refl 1, Nat.le_refl 1, hstep, hpc, staysAway_zero _ _⟩
  exact ⟨hpc, hrun, (budgets_compose turningInPlace 0x200).2.2.2.2 1 10000 1 turningInPlace hrun
    (by decide)⟩

end Machine

end GoldenRom

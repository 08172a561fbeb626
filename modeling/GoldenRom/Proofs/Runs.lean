import GoldenRom.Machine.Run
import GoldenRom.Proofs.Steps

/-!
# Runs

A run is bounded iteration of the step.  `afterSteps` is the sequence of machines that
successful steps produce, without target and without limit; `RunsTo` says how a run ends in
terms of this sequence alone, one rule for each of the three endings.  `runUntil_eq_iff` is the
whole meaning of a run: it ends in a result if and only if a rule yields that result.

## Main definitions

* `Machine.afterSteps`: the machine after a number of steps, if all of them succeed.
* `Machine.StaysAway`: none of the first steps ends at an address.
* `Machine.RunsTo`: the rules for the end of a run.
-/

namespace GoldenRom

namespace Machine

variable {γ : Type} [WordSource γ]

/-- The machine after a step, if it succeeds. -/
def step? (machine : Machine γ) : Option (Machine γ) :=
  match step machine with
  | .ok () after => some after
  | .error _ _ => none

theorem step?_eq_some_iff {before after : Machine γ} :
    before.step? = some after ↔ step before = .ok () after := by
  rw [step?]
  cases step before with
  | ok result found => simp
  | error fault found => simp

/-- The machine after a number of steps, if all of them succeed. -/
def afterSteps (machine : Machine γ) : Nat → Option (Machine γ)
  | 0 => some machine
  | n + 1 => (afterSteps machine n).bind step?

@[simp] theorem afterSteps_zero (machine : Machine γ) :
    machine.afterSteps 0 = some machine := rfl

theorem afterSteps_succ_eq_some_iff {start final : Machine γ} {n : Nat} :
    start.afterSteps (n + 1) = some final ↔
      ∃ last, start.afterSteps n = some last ∧ step last = .ok () final := by
  rw [afterSteps, Option.bind_eq_some_iff]
  exact exists_congr fun last => and_congr_right fun _ => step?_eq_some_iff

/-- Neighbours in the sequence of steps are one step apart. -/
theorem step_of_afterSteps {start middle after : Machine γ} {n : Nat}
    (hmiddle : start.afterSteps n = some middle)
    (hafter : start.afterSteps (n + 1) = some after) : step middle = .ok () after := by
  obtain ⟨last, hlast, hstep⟩ := afterSteps_succ_eq_some_iff.1 hafter
  obtain rfl : middle = last := Option.some.inj (hmiddle.symm.trans hlast)
  exact hstep

/-- None of the first `n` steps ends at an address.  Where the sequence starts is not looked
at. -/
def StaysAway (start : Machine γ) (target : Word) (n : Nat) : Prop :=
  ∀ i middle, 0 < i → i ≤ n → start.afterSteps i = some middle → middle.state.pc ≠ target

theorem staysAway_zero (start : Machine γ) (target : Word) : start.StaysAway target 0 := by
  intro i middle hpos hle
  omega

theorem StaysAway.mono {start : Machine γ} {target : Word} {k n : Nat}
    (haway : start.StaysAway target n) (hle : k ≤ n) : start.StaysAway target k :=
  fun i middle hpos hi => haway i middle hpos (Nat.le_trans hi hle)

/-- One more step that ends elsewhere. -/
theorem StaysAway.succ {start after : Machine γ} {target : Word} {n : Nat}
    (haway : start.StaysAway target n) (hafter : start.afterSteps (n + 1) = some after)
    (hpc : after.state.pc ≠ target) : start.StaysAway target (n + 1) := by
  intro i middle hpos hle hmiddle
  rcases Nat.eq_or_lt_of_le hle with rfl | hlt
  · rw [hafter] at hmiddle
    exact Option.some.inj hmiddle ▸ hpc
  · exact haway i middle hpos (Nat.le_of_lt_succ hlt) hmiddle

/-- How a run from a machine to a target within a limit ends. -/
inductive RunsTo (start : Machine γ) (target : Word) (limit : Nat) :
    EStateM.Result Fault (Machine γ) RunEnd → Prop
  /-- The target is reached for the first time after step `n + 1`. -/
  | halted {n : Nat} {final : Machine γ} (hlimit : n < limit)
      (hfinal : start.afterSteps (n + 1) = some final) (haway : start.StaysAway target n)
      (hpc : final.state.pc = target) : RunsTo start target limit (.ok ⟨n + 1, true⟩ final)
  /-- All steps succeed and none ends at the target. -/
  | exhausted {final : Machine γ} (hfinal : start.afterSteps limit = some final)
      (haway : start.StaysAway target limit) :
      RunsTo start target limit (.ok ⟨limit, false⟩ final)
  /-- A step fails before the target is reached. -/
  | faulted {n : Nat} {last final : Machine γ} {fault : Fault} (hlimit : n < limit)
      (hlast : start.afterSteps n = some last) (haway : start.StaysAway target n)
      (hfault : step last = .error fault final) : RunsTo start target limit (.error fault final)

/-- The rest of a run that has come to its step `n` without meeting the target or a fault. -/
theorem runsTo_runFrom {start machine : Machine γ} {target : Word} {n : Nat} (limit : Nat)
    (hmachine : start.afterSteps n = some machine) (haway : start.StaysAway target n) :
    start.RunsTo target (n + limit) (runFrom target n limit machine) := by
  -- On what is left of the limit.  What has been run is kept in `hmachine` and `haway`.
  induction limit generalizing n machine with
  | zero => exact .exhausted hmachine haway
  | succ limit ih =>
      rw [runFrom_succ]
      cases hstep : step machine with
      | error fault final => exact .faulted (by omega) hmachine haway hstep
      | ok result after =>
          have hafter : start.afterSteps (n + 1) = some after :=
            afterSteps_succ_eq_some_iff.2 ⟨machine, hmachine, hstep⟩
          by_cases hpc : after.state.pc = target
          · simp only [if_pos hpc]
            exact .halted (by omega) hafter haway hpc
          · simp only [if_neg hpc]
            rw [Nat.add_comm limit 1, ← Nat.add_assoc]
            exact ih hafter (haway.succ hafter hpc)

/-- A run passes through every machine of the sequence until it meets the target. -/
theorem runUntil_eq_runFrom {start machine : Machine γ} {target : Word} {n : Nat} (limit : Nat)
    (hmachine : start.afterSteps n = some machine) (haway : start.StaysAway target n) :
    runUntil target (n + limit) start = runFrom target n limit machine := by
  -- On the steps taken, the latest first, so the rest of the limit has to grow with them.
  induction n generalizing machine limit with
  | zero =>
      obtain rfl := Option.some.inj hmachine
      rw [runUntil, Nat.zero_add]
  | succ n ih =>
      obtain ⟨last, hlast, hstep⟩ := afterSteps_succ_eq_some_iff.1 hmachine
      have hpc : machine.state.pc ≠ target :=
        haway (n + 1) machine (Nat.succ_pos n) (Nat.le_refl _) hmachine
      rw [Nat.add_assoc, Nat.add_comm 1 limit,
        ih (limit + 1) hlast (haway.mono (Nat.le_succ n)), runFrom_succ, hstep]
      exact if_neg hpc

/-- **The meaning of a run.**  A run ends in a result if and only if one of the three rules
yields it. -/
theorem runUntil_eq_iff {start : Machine γ} {target : Word} {limit : Nat}
    {result : EStateM.Result Fault (Machine γ) RunEnd} :
    runUntil target limit start = result ↔ start.RunsTo target limit result := by
  constructor
  · rintro rfl
    have hrun := runsTo_runFrom limit (afterSteps_zero start) (staysAway_zero start target)
    rwa [Nat.zero_add] at hrun
  · intro hrun
    cases hrun with
    | @halted n final hlimit hfinal haway hpc =>
        obtain ⟨last, hlast, hstep⟩ := afterSteps_succ_eq_some_iff.1 hfinal
        obtain ⟨rest, rfl⟩ : ∃ rest, limit = n + (rest + 1) := ⟨limit - n - 1, by omega⟩
        rw [runUntil_eq_runFrom (rest + 1) hlast haway, runFrom_succ, hstep]
        exact if_pos hpc
    | exhausted hfinal haway =>
        have hrun := runUntil_eq_runFrom 0 hfinal haway
        rwa [Nat.add_zero] at hrun
    | @faulted n last final fault hlimit hlast haway hfault =>
        obtain ⟨rest, rfl⟩ : ∃ rest, limit = n + (rest + 1) := ⟨limit - n - 1, by omega⟩
        rw [runUntil_eq_runFrom (rest + 1) hlast haway, runFrom_succ, hfault]

/-! ## Faults leave no trace -/

/-- **A fault leaves no trace.**  A step that fails hands back the machine as it was, the source
of random words included, wherever in its span a block instruction is stopped.  So a run that
fails hands back the machine after its last successful step, from which the next step fails in
the same way. -/
theorem fault_leaves_no_trace :
    (∀ (before after : Machine γ) (fault : Fault), step before = .error fault after →
      after = before) ∧
      ∀ (start final : Machine γ) (target : Word) (limit : Nat) (fault : Fault),
        runUntil target limit start = .error fault final →
          ∃ n, n < limit ∧ start.afterSteps n = some final ∧ start.StaysAway target n ∧
            step final = .error fault final := by
  have hstep : ∀ (before after : Machine γ) (fault : Fault), step before = .error fault after →
      after = before := by
    intro before after fault hfault
    obtain ⟨_, _, _, hsame⟩ := step_eq_error_iff.1 hfault
    exact hsame
  refine ⟨hstep, ?_⟩
  intro start final target limit fault hrun
  rw [runUntil_eq_iff] at hrun
  cases hrun with
  | @faulted n last _ _ hlimit hlast haway hfault =>
      obtain rfl := hstep last final fault hfault
      exact ⟨n, hlimit, hlast, haway, hfault⟩

/-- A machine that points its index two bytes below the call stack (`AE9E`) and stores three
digits there (`F333`). -/
def digitsOverEdge : Machine SteppingSource where
  state := State.initial
    |>.setByte 0x200 0xAE |>.setByte 0x201 0x9E |>.setByte 0x202 0xF3 |>.setByte 0x203 0x33
  source := ⟨7, 1⟩

/-- The same machine before it stores.  The first two digits would fit, the third would fall on
the call stack. -/
def stoppedAtEdge : Machine SteppingSource :=
  digitsOverEdge.next (.loadIndex 0xE9E)

theorem fault_leaves_no_trace_at_edge :
    (∃ after, step stoppedAtEdge =
      .error (.program (.reserved 0xEA0 "call stack / runtime variables")) after ∧
        after = stoppedAtEdge) ∧
      runUntil haltAddress 5 digitsOverEdge
        = .error (.program (.reserved 0xEA0 "call stack / runtime variables")) stoppedAtEdge ∧
      ∃ n, n < 5 ∧ digitsOverEdge.afterSteps n = some stoppedAtEdge ∧
        digitsOverEdge.StaysAway haltAddress n ∧
        step stoppedAtEdge =
          .error (.program (.reserved 0xEA0 "call stack / runtime variables"))
          stoppedAtEdge := by
  have hindex : (digitsOverEdge.state.wordAt digitsOverEdge.state.pc.toNat).Encodes
      (.loadIndex 0xE9E) :=
    ⟨(by decide : (0xE9E : Word).toNat < 0x1000), by decide +kernel⟩
  have hfirst : digitsOverEdge.afterSteps 1 = some stoppedAtEdge :=
    afterSteps_succ_eq_some_iff.2 ⟨_, afterSteps_zero _,
      step_of_encodes (by decide +kernel) hindex rfl⟩
  have haway : digitsOverEdge.StaysAway haltAddress 1 :=
    (staysAway_zero digitsOverEdge haltAddress).succ hfirst (by decide +kernel)
  have hfault : step stoppedAtEdge
      = .error (.program (.reserved 0xEA0 "call stack / runtime variables")) stoppedAtEdge :=
    step_eq_error_iff.2 ⟨.reserved 0xEA0 "call stack / runtime variables",
      by decide +kernel, rfl, rfl⟩
  have hrun : runUntil haltAddress 5 digitsOverEdge
      = .error (.program (.reserved 0xEA0 "call stack / runtime variables")) stoppedAtEdge :=
    runUntil_eq_iff.2 (.faulted (by decide) hfirst haway hfault)
  exact ⟨⟨_, hfault, fault_leaves_no_trace.1 _ _ _ hfault⟩, hrun,
    fault_leaves_no_trace.2 _ _ _ _ _ hrun⟩

end Machine

end GoldenRom

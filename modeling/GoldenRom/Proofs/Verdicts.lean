import GoldenRom.Check.OutputTest
import GoldenRom.Proofs.Runs

/-!
# Verdicts

The outcome of a test is a matter of the machines that successful steps produce from the loaded
ROM, and of nothing else: neither of what the test found before nor of how the run goes about
it.  `OutputTest.Finds` says so by four rules, one for each way in which a test can end, and
`execute_eq_iff` shows that executing a test is applying the rule.

A run writes the fields of a test one by one, and each branch only some of them.  `execute_eq`
says what all four hold when it is over, whatever an earlier run has left in them.

## Main definitions

* `OutputTest.judge`: the outcome of running a test, made at once.
* `OutputTest.record`: a test with an outcome in its fields.
* `OutputTest.Loads`: the machine over the seed of a test, its ROM loaded.
* `OutputTest.Finds`: the rules for the outcome of a test.
-/

namespace GoldenRom

namespace Machine

/-! ## Loading before running -/

/-- A load fails only because the ROM is too long, and changes nothing then. -/
theorem loadRom_eq_error_iff {γ : Type} {before after : Machine γ} {rom : ByteArray}
    {fault : Fault} :
    loadRom rom before = .error fault after ↔
      romCapacity < rom.size ∧ fault = .engine (.romTooLarge rom.size romCapacity) ∧
        after = before := by
  rw [loadRom]
  cases hload : before.state.loadRom rom with
  | ok state =>
      have hfits : ¬romCapacity < rom.size := Nat.not_lt.2 (State.size_le_of_loadRom hload)
      exact ⟨nofun, fun h => absurd h.1 hfits⟩
  | error cause =>
      obtain ⟨hlarge, rfl⟩ := State.loadRom_eq_error_iff.1 hload
      simp only [EStateM.Result.error.injEq, hlarge, true_and, eq_comm]

variable {γ : Type} [WordSource γ]

theorem runRom_of_ok {machine loaded : Machine γ} {rom : ByteArray}
    (hload : loadRom rom machine = .ok () loaded) (limit : Nat) :
    runRom rom limit machine = runUntil haltAddress limit loaded :=
  Transition.bind_of_ok hload _

theorem runRom_of_error {machine after : Machine γ} {rom : ByteArray} {fault : Fault}
    (hload : loadRom rom machine = .error fault after) (limit : Nat) :
    runRom rom limit machine = .error fault after :=
  Transition.bind_of_error hload _

end Machine

namespace OutputTest

/-! ## What a run leaves -/

/-- Whether a text is the expected one. -/
def compareOutput (test : OutputTest) (actual : String) : Verdict :=
  if actual = test.expected then .passed else .incorrectResult

theorem compareOutput_eq_passed_iff {test : OutputTest} {actual : String} :
    test.compareOutput actual = .passed ↔ actual = test.expected := by
  simp [compareOutput]

theorem compareOutput_ne_timedOut (test : OutputTest) (actual : String) :
    test.compareOutput actual ≠ .timedOut := by
  rw [compareOutput]
  split <;> simp

theorem compareOutput_ne_threwError (test : OutputTest) (actual : String) :
    test.compareOutput actual ≠ .threwError := by
  rw [compareOutput]
  split <;> simp

/-- The outcome of running a test on a new machine. -/
def judge (test : OutputTest) : Outcome :=
  match Machine.runRom test.rom stepLimit (Machine.seeded test.seed) with
  | .ok ending machine =>
      let dump := machine.state.dump
      { verdict := if ending.halted then test.compareOutput dump else .timedOut
        cycles := ending.cycles
        actual? := some dump
        fault? := none }
  | .error (.program fault) _ =>
      let text := (Fault.program fault).message
      { verdict := test.compareOutput text
        cycles := 0
        actual? := some text
        fault? := none }
  | .error (.engine fault) _ =>
      { verdict := .threwError
        cycles := 0
        actual? := none
        fault? := some (.engine fault) }

/-- The test with an outcome in its fields, in place of what an earlier run has left there. -/
def record (test : OutputTest) (outcome : Outcome) : OutputTest :=
  { test with
    actual? := outcome.actual?
    verdict? := some outcome.verdict
    fault? := outcome.fault?
    cycles := outcome.cycles }

/-- Comparing looks at the output that has been written, which is the text in question. -/
theorem compare_of_actual? {test : OutputTest} {text : String}
    (hactual : test.actual? = some text) :
    test.compare = test.compareOutput text := by
  rw [compare, compareOutput, hactual]
  simp only [Option.some.injEq]

/-- **A run leaves what it has found, and nothing of an earlier one.**  All four fields are
those of the outcome, also where its branch writes none of them, and ROM, expected text and seed
stay. -/
theorem execute_eq (test : OutputTest) :
    test.execute = (test.record test.judge, test.judge.verdict) := by
  have hcleared : Machine.runRom test.clear.rom stepLimit (Machine.seeded test.clear.seed) =
      Machine.runRom test.rom stepLimit (Machine.seeded test.seed) := rfl
  rw [execute, runCleared, hcleared, judge]
  cases Machine.runRom test.rom stepLimit (Machine.seeded test.seed) with
  | ok ending machine =>
      dsimp only
      rw [compare_of_actual? rfl]
      rfl
  | error fault machine => cases fault with
    | program cause =>
        dsimp only
        rw [compare_of_actual? rfl]
        rfl
    | engine cause => rfl

theorem verdict_execute (test : OutputTest) : test.execute.2 = test.judge.verdict := by
  rw [execute_eq]

/-! ## The rules -/

/-- A machine is a new one over the seed of the test, with the ROM of the test loaded. -/
def Loads (test : OutputTest) (loaded : Machine ChaCha) : Prop :=
  Machine.loadRom test.rom (Machine.seeded test.seed) = .ok () loaded

/-- What a test finds.  The machines in question are those that successful steps produce from
the loaded one; where the loaded one stands is not looked at. -/
inductive Finds (test : OutputTest) : Outcome → Prop
  /-- The ROM does not fit into memory. -/
  | romTooLarge (hlarge : 0xE00 < test.rom.size) :
      Finds test ⟨.threwError, 0, none, some (.engine (.romTooLarge test.rom.size 0xE00))⟩
  /-- Step `n + 1` is the first that ends at the halt address.  The dump is compared. -/
  | halted {loaded final : Machine ChaCha} {n : Nat} (hload : test.Loads loaded)
      (hlimit : n < 10000) (hfinal : loaded.afterSteps (n + 1) = some final)
      (haway : loaded.StaysAway 0x111 n) (hpc : final.state.pc = 0x111) :
      Finds test
        ⟨if final.state.dump = test.expected then .passed else .incorrectResult, n + 1,
          some final.state.dump, none⟩
  /-- All steps succeed and none ends at the halt address.  The dump is not compared. -/
  | timedOut {loaded final : Machine ChaCha} (hload : test.Loads loaded)
      (hfinal : loaded.afterSteps 10000 = some final) (haway : loaded.StaysAway 0x111 10000) :
      Finds test ⟨.timedOut, 10000, some final.state.dump, none⟩
  /-- Step `n + 1` fails before any has ended at the halt address.  The text of the fault is
  compared. -/
  | faulted {loaded last after : Machine ChaCha} {n : Nat} {cause : ProgramFault}
      (hload : test.Loads loaded) (hlimit : n < 10000)
      (hlast : loaded.afterSteps n = some last) (haway : loaded.StaysAway 0x111 n)
      (hfault : Machine.step last = .error (.program cause) after) :
      Finds test
        ⟨if (Fault.program cause).message = test.expected then .passed else .incorrectResult, 0,
          some (Fault.program cause).message, none⟩

/-- Once the ROM is loaded, the result is that of the run. -/
theorem runRom_of_runsTo {test : OutputTest} {loaded : Machine ChaCha}
    {result : EStateM.Result Fault (Machine ChaCha) RunEnd} (hload : test.Loads loaded)
    (hends : loaded.RunsTo haltAddress stepLimit result) :
    Machine.runRom test.rom stepLimit (Machine.seeded test.seed) = result :=
  (Machine.runRom_of_ok hload stepLimit).trans (Machine.runUntil_eq_iff.2 hends)

/-- Some rule yields what executing a test finds. -/
theorem finds_judge (test : OutputTest) : test.Finds test.judge := by
  cases hload : Machine.loadRom test.rom (Machine.seeded test.seed) with
  | error fault after =>
      have hrun := Machine.runRom_of_error hload stepLimit
      obtain ⟨hlarge, rfl, -⟩ := Machine.loadRom_eq_error_iff.1 hload
      rw [judge, hrun]
      exact .romTooLarge hlarge
  | ok result loaded =>
      obtain ⟨result, hends⟩ : ∃ result, loaded.RunsTo haltAddress stepLimit result :=
        ⟨_, Machine.runUntil_eq_iff.1 rfl⟩
      rw [judge, runRom_of_runsTo hload hends]
      cases hends with
      | halted hlimit hfinal haway hpc => exact .halted hload hlimit hfinal haway hpc
      | exhausted hfinal haway => exact .timedOut hload hfinal haway
      | faulted hlimit hlast haway hfault =>
          -- An engine fault would have a verdict of its own, but no step has one.
          obtain ⟨cause, _, rfl, _⟩ := Machine.step_eq_error_iff.1 hfault
          exact .faulted hload hlimit hlast haway hfault

/-- No rule yields anything else. -/
theorem judge_eq_of_finds {test : OutputTest} {outcome : Outcome}
    (hfinds : test.Finds outcome) : test.judge = outcome := by
  cases hfinds with
  | romTooLarge hlarge =>
      have hload : Machine.loadRom test.rom (Machine.seeded test.seed) = .error _ _ :=
        Machine.loadRom_eq_error_iff.2 ⟨hlarge, rfl, rfl⟩
      rw [judge, Machine.runRom_of_error hload]
      rfl
  | halted hload hlimit hfinal haway hpc =>
      rw [judge, runRom_of_runsTo hload (.halted hlimit hfinal haway hpc)]
      rfl
  | timedOut hload hfinal haway =>
      rw [judge, runRom_of_runsTo hload (.exhausted hfinal haway)]
      rfl
  | faulted hload hlimit hlast haway hfault =>
      rw [judge, runRom_of_runsTo hload (.faulted hlimit hlast haway hfault)]
      rfl

/-- A test throws an error only if no step is ever taken. -/
theorem verdict_judge_eq_threwError_iff (test : OutputTest) :
    test.judge.verdict = .threwError ↔ 0xE00 < test.rom.size := by
  constructor
  · intro hthrew
    have hfinds := test.finds_judge
    generalize test.judge = outcome at hthrew hfinds
    cases hfinds with
    | romTooLarge hlarge => exact hlarge
    | halted => split at hthrew <;> cases hthrew
    | timedOut => cases hthrew
    | faulted => split at hthrew <;> cases hthrew
  · intro hlarge
    rw [judge_eq_of_finds (.romTooLarge hlarge)]

/-- A test times out only on a run whose steps all succeed and never end at the halt address. -/
theorem exists_afterSteps_of_timedOut {test : OutputTest}
    (htimedOut : test.judge.verdict = .timedOut) :
    ∃ loaded final, test.Loads loaded ∧ loaded.afterSteps 10000 = some final ∧
      loaded.StaysAway 0x111 10000 := by
  have hfinds := test.finds_judge
  generalize test.judge = outcome at htimedOut hfinds
  cases hfinds with
  | romTooLarge => cases htimedOut
  | halted => split at htimedOut <;> cases htimedOut
  | timedOut hload hfinal haway => exact ⟨_, _, hload, hfinal, haway⟩
  | faulted => split at htimedOut <;> cases htimedOut

/-- **Verdicts are exact.**  Whatever an earlier run has left in its fields, executing a test
puts the outcome that the rules yield in place of it, and answers with its verdict; and it
throws an error if and only if the ROM does not fit. -/
theorem execute_eq_iff (test : OutputTest) (result : OutputTest × Verdict) :
    (test.execute = result ↔
        ∃ outcome, test.Finds outcome ∧ result = (test.record outcome, outcome.verdict)) ∧
      (test.execute.2 = .threwError ↔ 0xE00 < test.rom.size) := by
  rw [execute_eq]
  refine ⟨?_, test.verdict_judge_eq_threwError_iff⟩
  constructor
  · rintro rfl
    exact ⟨test.judge, test.finds_judge, rfl⟩
  · rintro ⟨outcome, hfinds, rfl⟩
    rw [judge_eq_of_finds hfinds]

end OutputTest

end GoldenRom

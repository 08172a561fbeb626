import GoldenRom.Files.FileSystem
import GoldenRom.Proofs.Outputs

/-!
# Endings of ROMs

A ROM that is run over the words of a seed, within the steps that a test allows, comes to
exactly one of four endings.  `RomEnds` gives them by rules about the machines that successful
steps produce; the rules mention neither a test nor the program that runs a single ROM, so both
can be compared with them.

## Main definitions

* `RomEnding`: the four endings, with the machine that each leaves behind.
* `RomEnds`: the rules.
* `RomEnding.comparable?`: the text by which a test with this ending is judged, if it is judged
  by a text.
* `doneDirectory`: a directory with a ROM that halts and an expected text, for examples.
-/

namespace GoldenRom

/-- How the run of a ROM comes to its end. -/
inductive RomEnding where
  /-- A step has ended at the halt address. -/
  | halted (cycles : Nat) (final : Machine ChaCha)
  /-- All steps have been used up. -/
  | timedOut (final : Machine ChaCha)
  /-- The next step of a machine fails. -/
  | faulted (cause : ProgramFault) (last : Machine ChaCha)
  /-- The ROM does not fit into memory. -/
  | tooLarge

/-- How a ROM ends over the words of a seed.  The machines in question are those that successful
steps produce from a new machine into which the ROM has been loaded. -/
inductive RomEnds (rom : ByteArray) (seed : UInt64) : RomEnding → Prop
  /-- Step `n + 1` is the first that ends at the halt address. -/
  | halted {loaded final : Machine ChaCha} {n : Nat}
      (hload : Machine.loadRom rom (Machine.seeded seed) = .ok () loaded) (hlimit : n < 10000)
      (hfinal : loaded.afterSteps (n + 1) = some final) (haway : loaded.StaysAway 0x111 n)
      (hpc : final.state.pc = 0x111) : RomEnds rom seed (.halted (n + 1) final)
  /-- All steps succeed and none ends at the halt address. -/
  | timedOut {loaded final : Machine ChaCha}
      (hload : Machine.loadRom rom (Machine.seeded seed) = .ok () loaded)
      (hfinal : loaded.afterSteps 10000 = some final) (haway : loaded.StaysAway 0x111 10000) :
      RomEnds rom seed (.timedOut final)
  /-- Step `n + 1` fails before any has ended at the halt address.  The machine is the one just
  before that step. -/
  | faulted {loaded last : Machine ChaCha} {n : Nat} {cause : ProgramFault}
      (hload : Machine.loadRom rom (Machine.seeded seed) = .ok () loaded) (hlimit : n < 10000)
      (hlast : loaded.afterSteps n = some last) (haway : loaded.StaysAway 0x111 n)
      (hfault : Machine.step last = .error (.program cause) last) :
      RomEnds rom seed (.faulted cause last)
  | tooLarge (hlarge : 0xE00 < rom.size) : RomEnds rom seed .tooLarge

namespace RomEnding

/-- What a run with this ending returns, and the machine that it hands back. -/
def result (rom : ByteArray) (seed : UInt64) :
    RomEnding → EStateM.Result Fault (Machine ChaCha) RunEnd
  | halted cycles final => .ok ⟨cycles, true⟩ final
  | timedOut final => .ok ⟨stepLimit, false⟩ final
  | faulted cause last => .error (.program cause) last
  | tooLarge => .error (.engine (.romTooLarge rom.size romCapacity)) (Machine.seeded seed)

/-- What a test with this ending finds. -/
def outcome (test : OutputTest) : RomEnding → Outcome
  | halted cycles final =>
      ⟨test.compareOutput final.state.dump, cycles, some final.state.dump, none⟩
  | timedOut final => ⟨.timedOut, stepLimit, some final.state.dump, none⟩
  | faulted cause _ =>
      ⟨test.compareOutput (Fault.program cause).message, 0,
        some (Fault.program cause).message, none⟩
  | tooLarge => ⟨.threwError, 0, none, some (.engine (.romTooLarge test.rom.size romCapacity))⟩

/-- The text that a test with this ending compares with the expected one. -/
def comparable? : RomEnding → Option String
  | halted _ final => some final.state.dump
  | faulted cause _ => some (Fault.program cause).message
  | timedOut _ | tooLarge => none

end RomEnding

/-! ## The rules and the run -/

namespace RomEnds

variable {rom : ByteArray} {seed : UInt64} {ending other : RomEnding}

theorem runRom_eq (hends : RomEnds rom seed ending) :
    Machine.runRom rom stepLimit (Machine.seeded seed) = ending.result rom seed := by
  cases hends with
  | halted hload hlimit hfinal haway hpc =>
      rw [Machine.runRom_of_ok hload]
      exact Machine.runUntil_eq_iff.2 (.halted hlimit hfinal haway hpc)
  | timedOut hload hfinal haway =>
      rw [Machine.runRom_of_ok hload]
      exact Machine.runUntil_eq_iff.2 (.exhausted hfinal haway)
  | faulted hload hlimit hlast haway hfault =>
      rw [Machine.runRom_of_ok hload]
      exact Machine.runUntil_eq_iff.2 (.faulted hlimit hlast haway hfault)
  | tooLarge hlarge =>
      exact Machine.runRom_of_error (Machine.loadRom_eq_error_iff.2 ⟨hlarge, rfl, rfl⟩)
        stepLimit

/-- Some rule applies. -/
theorem exists_romEnds (rom : ByteArray) (seed : UInt64) :
    ∃ ending, RomEnds rom seed ending := by
  cases hload : Machine.loadRom rom (Machine.seeded seed) with
  | error fault after => exact ⟨_, .tooLarge (Machine.loadRom_eq_error_iff.1 hload).1⟩
  | ok result loaded =>
      obtain ⟨result, hends⟩ : ∃ result, loaded.RunsTo haltAddress stepLimit result :=
        ⟨_, Machine.runUntil_eq_iff.1 rfl⟩
      cases hends with
      | halted hlimit hfinal haway hpc => exact ⟨_, .halted hload hlimit hfinal haway hpc⟩
      | exhausted hfinal haway => exact ⟨_, .timedOut hload hfinal haway⟩
      | faulted hlimit hlast haway hfault =>
          obtain ⟨cause, _, rfl, rfl⟩ := Machine.step_eq_error_iff.1 hfault
          exact ⟨_, .faulted hload hlimit hlast haway hfault⟩

/-- No two rules apply. -/
theorem eq (hends : RomEnds rom seed ending) (hother : RomEnds rom seed other) :
    ending = other := by
  have hresult : ending.result rom seed = other.result rom seed :=
    hends.runRom_eq.symm.trans hother.runRom_eq
  cases ending <;> cases other <;> simp_all [RomEnding.result]

/-- A test finds what the ending of its ROM says. -/
theorem judge_eq {test : OutputTest} (hends : RomEnds test.rom test.seed ending) :
    test.judge = ending.outcome test := by
  rw [OutputTest.judge, hends.runRom_eq]
  cases ending <;> rfl

/-- A test passes if its ROM comes to an ending that is compared, and the text is the expected
one. -/
theorem verdict_eq_passed_iff {test : OutputTest} (hends : RomEnds test.rom test.seed ending) :
    test.judge.verdict = .passed ↔ ending.comparable? = some test.expected := by
  rw [hends.judge_eq]
  cases ending with
  | halted cycles final =>
      simp [RomEnding.outcome, RomEnding.comparable?, OutputTest.compareOutput_eq_passed_iff]
  | faulted cause last =>
      simp [RomEnding.outcome, RomEnding.comparable?, OutputTest.compareOutput_eq_passed_iff]
  | timedOut final => simp [RomEnding.outcome, RomEnding.comparable?]
  | tooLarge => simp [RomEnding.outcome, RomEnding.comparable?]

/-- The result of a test is incorrect if its ROM comes to an ending that is compared, and the
text is another one. -/
theorem verdict_eq_incorrectResult_iff {test : OutputTest}
    (hends : RomEnds test.rom test.seed ending) :
    test.judge.verdict = .incorrectResult ↔ ∃ text, ending.comparable? = some text ∧
      text ≠ test.expected := by
  rw [hends.judge_eq]
  cases ending with
  | halted cycles final =>
      simp [RomEnding.outcome, RomEnding.comparable?, OutputTest.compareOutput]
  | faulted cause last =>
      simp [RomEnding.outcome, RomEnding.comparable?, OutputTest.compareOutput]
  | timedOut final => simp [RomEnding.outcome, RomEnding.comparable?]
  | tooLarge => simp [RomEnding.outcome, RomEnding.comparable?]

/-- The text that is compared is the actual output. -/
theorem actual_eq {test : OutputTest} (hends : RomEnds test.rom test.seed ending)
    {text : String} (htext : ending.comparable? = some text) : test.run.actual = text := by
  rw [OutputTest.actual, OutputTest.run, OutputTest.execute_eq, hends.judge_eq]
  cases ending with
  | halted cycles final => exact Option.some.inj htext
  | faulted cause last => exact Option.some.inj htext
  | timedOut final => cases htext
  | tooLarge => cases htext

/-- What a test expects plays no part where nothing is compared. -/
theorem verdict_eq_of_comparable?_eq_none {test other : OutputTest}
    (hends : RomEnds test.rom test.seed ending) (hother : RomEnds other.rom other.seed ending)
    (hnone : ending.comparable? = none) :
    test.judge.verdict = other.judge.verdict := by
  rw [hends.judge_eq, hother.judge_eq]
  cases ending with
  | halted cycles final => cases hnone
  | faulted cause last => cases hnone
  | timedOut final => rfl
  | tooLarge => rfl

/-- No text that is compared is empty. -/
theorem comparable?_ne_empty (ending : RomEnding) : ending.comparable? ≠ some "" := by
  cases ending with
  | halted cycles final =>
      intro hempty
      have hlist := congrArg String.toList (Option.some.inj hempty)
      rw [State.dump, String.toList_append, String.toList_append] at hlist
      simp at hlist
  | faulted cause last =>
      intro hempty
      have hlist := congrArg String.toList (Option.some.inj hempty)
      rw [Fault.toList_message_program] at hlist
      simp at hlist
  | timedOut final =>
      intro hempty
      cases hempty
  | tooLarge =>
      intro hempty
      cases hempty

end RomEnds

/-- The ROM that jumps to the halt address halts with its first step. -/
theorem romEnds_doneRom (seed : UInt64) :
    ∃ final, RomEnds Machine.doneRom seed (.halted 1 final) := by
  obtain ⟨ending, hends⟩ := RomEnds.exists_romEnds Machine.doneRom seed
  obtain ⟨s, hdone⟩ := OutputTest.exists_ending_doneRom
  obtain ⟨final, hending, -⟩ := hdone "" seed
  have hresult : ending.result Machine.doneRom seed = .ok ⟨1, true⟩ final :=
    hends.runRom_eq.symm.trans hending
  cases ending with
  | halted cycles last =>
      obtain rfl : cycles = 1 := by
        simp only [RomEnding.result, EStateM.Result.ok.injEq, RunEnd.mk.injEq] at hresult
        exact hresult.1.1
      exact ⟨last, hends⟩
  | timedOut last => simp [RomEnding.result] at hresult
  | faulted cause last => cases hresult
  | tooLarge => cases hresult

/-- A working directory with a ROM that halts with its first step, and an expected text beside
it. -/
def doneDirectory (expected : String) : FileSystem :=
  ⟨.directory [("done.test", .file Machine.doneRom), ("done.expected", .file expected.toUTF8)],
    []⟩

theorem read_doneDirectory (expected : String) :
    (doneDirectory expected).read ⟨"done.test"⟩ = .ok Machine.doneRom := by
  rfl

end GoldenRom

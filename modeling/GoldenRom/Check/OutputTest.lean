import GoldenRom.Machine.Dump
import GoldenRom.Machine.Trace

/-!
# Output tests

An output test runs one ROM and compares what comes out with an expected text.  What comes out
is the dump of the final state, or the text of the program fault that ended the run: a ROM may
well be meant to fault.  A run that does not reach the halt address in time has failed whatever
its dump says, and an engine fault is no output at all.

## Main definitions

* `Verdict`: the four results of a test.
* `OutputTest`, `OutputTest.new`: a test, with what the latest run has left in its fields.
* `OutputTest.execute`: the run of a test.
* `Outcome`: a verdict with the cycles, the actual output and the engine fault that belong to
  it.

### Design notes

A run writes the fields one by one.  Only those that its branch is about are written, so it
first clears what an earlier run may have left in the others.
-/

namespace GoldenRom

/-- The result of a test. -/
inductive Verdict where
  /-- The actual output is the expected one. -/
  | passed
  /-- The actual output differs from the expected one. -/
  | incorrectResult
  /-- The program did not reach the halt address in time. -/
  | timedOut
  /-- The engine failed. -/
  | threwError
deriving DecidableEq

/-- What a verdict is called. -/
def Verdict.name : Verdict → String
  | passed => "passed"
  | incorrectResult => "failed-incorrect-result"
  | timedOut => "failed-timeout"
  | threwError => "failed-threw-error"

/-- The seed of the random words of a test that does not choose one. -/
def defaultSeed : UInt64 := 0xC8

/-- A ROM, what it should put out, and what the latest run has left. -/
structure OutputTest where
  rom : ByteArray
  expected : String
  seed : UInt64 := defaultSeed
  /-- The dump or the text of a program fault. -/
  actual? : Option String := none
  verdict? : Option Verdict := none
  /-- The engine fault, if the engine failed. -/
  fault? : Option Fault := none
  /-- The steps taken by a run that did not stop at a fault, and zero for one that did. -/
  cycles : Nat := 0

/-- What a run of a test has found. -/
structure Outcome where
  verdict : Verdict
  cycles : Nat
  actual? : Option String
  fault? : Option Fault
deriving DecidableEq

namespace OutputTest

/-- A test that has not run yet. -/
def new (rom : ByteArray) (expected : String) (seed : UInt64) : OutputTest :=
  { rom, expected, seed }

/-- Whether the actual output is the expected one. -/
def compare (test : OutputTest) : Verdict :=
  if test.actual? = some test.expected then .passed else .incorrectResult

/-- Clears what an earlier run has left, except for its verdict, which stays until there is a
new one. -/
def clear (test : OutputTest) : OutputTest :=
  { test with actual? := none, fault? := none, cycles := 0 }

/-- Runs the ROM on a new machine and writes down what comes out; the verdict is returned. -/
def runCleared (test : OutputTest) : OutputTest × Verdict :=
  match Machine.runRom test.rom stepLimit (Machine.seeded test.seed) with
  | .ok ending machine =>
      let test := { test with cycles := ending.cycles, actual? := some machine.state.dump }
      (test, if ending.halted then test.compare else .timedOut)
  | .error (.program fault) _ =>
      let test := { test with actual? := some (Fault.program fault).message }
      (test, test.compare)
  | .error (.engine fault) _ => ({ test with fault? := some (.engine fault) }, .threwError)

/-- Runs a test: the test as the run leaves it, and the verdict. -/
def execute (test : OutputTest) : OutputTest × Verdict :=
  let (test, verdict) := test.clear.runCleared
  ({ test with verdict? := some verdict }, verdict)

/-- The test as a run leaves it. -/
def run (test : OutputTest) : OutputTest :=
  test.execute.1

/-- The outcome of the latest run, if there was one. -/
def outcome? (test : OutputTest) : Option Outcome :=
  test.verdict?.map fun verdict => ⟨verdict, test.cycles, test.actual?, test.fault?⟩

/-- The actual output of the latest run, empty if there is none. -/
def actual (test : OutputTest) : String :=
  test.actual?.getD ""

/-- The log of the latest run. -/
def runLog (least : LogLevel) (test : OutputTest) : List LogLine :=
  match test.outcome? with
  | none => []
  | some outcome =>
      LogLine.romRun least (Machine.seeded test.seed) test.rom stepLimit ++
        LogLine.atLeast least
          [⟨.debug, "output test finished: " ++ outcome.verdict.name ++
            " after " ++ Numeral.decimal outcome.cycles ++ " cycles"⟩]

end OutputTest

end GoldenRom

import GoldenRom.CommandLine.Arguments
import GoldenRom.Files.Suite

/-!
# The program

What the program does with a command line, as a function of the file system that it finds.  It
either runs one ROM and prints how the run ended and the final state, or it runs the tests of a
suite and prints their report.

## Main definitions

* `ProgramResult`: exit code, both outputs and the file system afterwards.
* `runCommand`, `testCommand`: the two commands.
* `runProgram`: the whole program.

### Design notes

The exit code is 0 for a run that ended in any way that a ROM can bring about, 1 for failed
tests and for everything that could not be done, and 2 for a malformed command line.
-/

namespace GoldenRom

/-- What a run of the program leaves behind. -/
structure ProgramResult where
  exitCode : Nat
  stdout : String
  /-- The log, followed by the report of an error. -/
  stderr : String
  fileSystem : FileSystem

/-- A log as it is written. -/
def logText (log : List LogLine) : String :=
  String.join (log.map LogLine.text)

/-- The report of an error that has a cause. -/
def errorReport (message cause : String) : String :=
  unlines ["Error: " ++ message, "", "Caused by:", "    " ++ cause]

/-- The line that tells how a run has ended. -/
def RunEnd.report (ending : RunEnd) : String :=
  (if ending.halted then "Halted after " else "Stopped after ") ++
    Numeral.decimal ending.cycles ++ " cycles."

/-- The line that a malformed command line is answered with. -/
def usage : String :=
  "usage: [-v|--verbose] [-s|--seed N] " ++
    "(run PATH [-m|--max-cycles N] | test [-r|--rebase] PATH...)"

/-- Runs one ROM from a seed. -/
def runCommand (least : LogLevel) (seed : UInt64) (path : Path) (maxCycles : Nat)
    (fs : FileSystem) : ProgramResult :=
  match fs.read path with
  | .error error => ⟨1, "", unlines ["Error: " ++ error.message], fs⟩
  | .ok rom =>
      let log := logText (LogLine.romRun least (Machine.seeded seed) rom maxCycles)
      match Machine.runRom rom maxCycles (Machine.seeded seed) with
      | .ok ending machine => ⟨0, unlines [ending.report, machine.state.dump], log, fs⟩
      | .error (.program fault) machine =>
          ⟨0, unlines [(Fault.program fault).message, machine.state.dump], log, fs⟩
      | .error (.engine fault) _ =>
          ⟨1, "", log ++ errorReport (Fault.engine fault).message fault.message, fs⟩

/-- Runs the tests of a suite. -/
def testCommand (least : LogLevel) (suite : Suite) (fs : FileSystem) : ProgramResult :=
  let session := suite.run fs
  let log := logText (session.log least)
  match session.result with
  | .ok summary => ⟨if summary.allPassed then 0 else 1, session.report, log, session.world⟩
  | .error error =>
      ⟨1, session.report, log ++ errorReport error.summary error.cause.message, session.world⟩

/-- Does what an invocation asks for. -/
def Invocation.run (invocation : Invocation) (fs : FileSystem) : ProgramResult :=
  let least := if invocation.verbose then .debug else .warn
  match invocation.command with
  | .run path maxCycles => runCommand least invocation.seed path maxCycles fs
  | .test rebase searchPaths =>
      testCommand least { searchPaths, rebase, seed := invocation.seed } fs

/-- Does what a command line asks for. -/
def runProgram (arguments : List String) (fs : FileSystem) : ProgramResult :=
  match Invocation.ofArguments? arguments with
  | none => ⟨2, "", unlines [usage], fs⟩
  | some invocation => invocation.run fs

end GoldenRom

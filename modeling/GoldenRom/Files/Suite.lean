import GoldenRom.Check.Runner
import GoldenRom.Files.FileSystem

/-!
# Suites of tests in files

A test is a ROM in a file with the extension `test`; the text that it should put out lies beside
it in a file with the extension `expected`.  A suite is a list of search paths: a directory
stands for every test file below it, and any other path stands for itself if it has the
extension of a test.

## Main definitions

* `Path.baseline`: where the expected text of a test lies.
* `Node.tests`, `FileSystem.findTests`: the tests below a directory, and the sorted queue of a
  list of search paths.
* `FileTest`, `SuiteError`, `suiteHost`: the host whose world is a file system.
* `Suite.run`: a session over the tests of a suite, with its report and its log.

### Design notes

A baseline that cannot be read counts as empty, which a warning tells.  A test that is found
twice runs twice, and its second run sees the baseline that the first one may have saved.

What lies below a search path is looked at by joined paths, so a directory deep enough may have
a path that is too long.  It then stands for itself, as a path does that leads to no directory.
-/

namespace GoldenRom

/-- The extension of a file that holds a ROM to be tested. -/
def testExtension : String := "test"

/-- The extension of a file that holds an expected text. -/
def baselineExtension : String := "expected"

namespace Path

/-- Whether a path has the extension of a test. -/
def isTest (p : Path) : Bool :=
  p.extension? == some testExtension

/-- Where the expected text of a test lies. -/
def baseline (p : Path) : Path :=
  p.withExtension baselineExtension

end Path

namespace Node

mutual

/-- The paths of the tests at and below a node, which is reached by the path `p`.  A directory
that only a faulty path text leads to is not looked into. -/
def tests (p : Path) : Node → List Path
  | file _ => if p.isTest then [p] else []
  | directory entries =>
      if p.fault?.isNone then testsAmong p entries
      else if p.isTest then [p] else []

/-- The paths of the tests at and below the entries of a directory, which is reached by the path
`p`. -/
def testsAmong (p : Path) : List (String × Node) → List Path
  | [] => []
  | (name, node) :: rest => tests (p.join name) node ++ testsAmong p rest

end

end Node

namespace FileSystem

/-- The tests that a search path stands for.  A path that leads nowhere stands for itself if it
has the extension of a test; reading it will then fail. -/
def testsAt (fs : FileSystem) (p : Path) : List Path :=
  match fs.nodeAt p with
  | .ok node => node.tests p
  | .error _ => if p.isTest then [p] else []

/-- The tests that a list of search paths stands for, sorted by components. -/
def findTests (fs : FileSystem) (searchPaths : List Path) : List Path :=
  (searchPaths.flatMap fs.testsAt).mergeSort Path.sortsBefore

end FileSystem

/-- A test with the path of its ROM. -/
structure FileTest where
  path : Path
  test : OutputTest
  /-- Why the expected text could not be read, in which case it counts as empty. -/
  unread? : Option FileError

/-- Why a session over files has stopped. -/
inductive SuiteError where
  | unreadableTest (path : Path) (cause : FileError)
  | unwritableBaseline (path : Path) (cause : FileError)
deriving DecidableEq

namespace SuiteError

/-- What could not be done. -/
def summary : SuiteError → String
  | unreadableTest path _ => "Failed to read test '" ++ path.text ++ "'"
  | unwritableBaseline path _ => "Failed to write baseline '" ++ path.text ++ "'"

/-- Why it could not be done. -/
def cause : SuiteError → FileError
  | unreadableTest _ cause => cause
  | unwritableBaseline _ cause => cause

/-- What could not be done and why, on one line. -/
def message (error : SuiteError) : String :=
  error.summary ++ ": " ++ error.cause.message

end SuiteError

namespace FileTest

/-- The test of the ROM at a path. -/
def load (seed : UInt64) (fs : FileSystem) (path : Path) : Except SuiteError FileTest :=
  match fs.read path with
  | .error cause => .error (.unreadableTest path cause)
  | .ok rom => match fs.readText path.baseline with
    | .ok expected => .ok { path, unread? := none, test := .new rom expected seed }
    | .error cause => .ok { path, unread? := some cause, test := .new rom "" seed }

/-- Runs a test. -/
def execute (test : FileTest) : FileTest × Verdict :=
  let (executed, verdict) := test.test.execute
  ({ test with test := executed }, verdict)

/-- Writes the actual output of a test over its expected text. -/
def save (fs : FileSystem) (test : FileTest) : Except SuiteError FileSystem :=
  match fs.write test.path.baseline test.test.actual.toUTF8 with
  | .ok fs => .ok fs
  | .error cause => .error (.unwritableBaseline test.path.baseline cause)

end FileTest

/-- The host whose world is a file system and whose queue holds the paths of tests. -/
def suiteHost (seed : UInt64) : Host FileSystem Path FileTest SuiteError where
  load := FileTest.load seed
  execute := FileTest.execute
  save := FileTest.save

/-- The lines that report why a test has failed. -/
def Verdict.report (test : OutputTest) : Verdict → List String
  | passed => []
  | incorrectResult => ["Expected result is:", test.expected, "Actual result was:", test.actual]
  | timedOut => ["Timed out."]
  | threwError => match test.fault? with
    | some fault => ["Test threw error: " ++ fault.message]
    | none => []

namespace Event

/-- The lines that an event adds to the report.  Tests that pass are not mentioned. -/
def report : Event FileTest → List String
  | started _ | executed _ | passed _ | saving _ => []
  | failed test verdict => ("Test " ++ test.path.text ++ " failed.") :: verdict.report test.test
  | rebased test => ["Rebased " ++ test.path.baseline.text ++ "."]
  | finished summary =>
      ["Testing finished. " ++ Numeral.decimal summary.passed ++ " passed / " ++
        Numeral.decimal summary.failed ++ " failed / " ++
        Numeral.decimal summary.rebased ++ " rebased."]

/-- The lines that an event adds to the log. -/
def log (least : LogLevel) : Event FileTest → List LogLine
  | started test =>
      let unread := match test.unread? with
        | some cause =>
            [⟨.warn, "Couldn't read expected output for test " ++ test.path.text ++ ": " ++
              cause.message⟩]
        | none => []
      LogLine.atLeast least (unread ++ [⟨.debug, "Starting test " ++ test.path.text⟩])
  | executed test => test.test.runLog least
  | passed test => LogLine.atLeast least [⟨.info, "Test " ++ test.path.text ++ " passed."⟩]
  | failed _ _ | saving _ | rebased _ => []
  | finished summary => LogLine.atLeast least [LogLine.finished summary]

end Event

/-- Search paths with the seed and the option of the run. -/
structure Suite where
  searchPaths : List Path
  seed : UInt64 := defaultSeed
  rebase : Bool := false

namespace Suite

/-- The session of a new runner over the tests of a suite. -/
def run (suite : Suite) (fs : FileSystem) : Session FileSystem Path FileTest SuiteError :=
  Runner.run (suiteHost suite.seed) { rebase := suite.rebase } fs
    (fs.findTests suite.searchPaths)

end Suite

/-- Lines of text, each with its line break. -/
def unlines (lines : List String) : String :=
  String.join (lines.map (· ++ "\n"))

namespace Session

variable {Error : Type}

/-- The report of a session. -/
def report (session : Session FileSystem Path FileTest Error) : String :=
  unlines (session.events.flatMap Event.report)

/-- The log of a session. -/
def log (least : LogLevel) (session : Session FileSystem Path FileTest Error) : List LogLine :=
  session.events.flatMap (Event.log least)

end Session

end GoldenRom

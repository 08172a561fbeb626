import GoldenRom.Check.OutputTest

/-!
# The runner

The runner takes the tests of a queue one after the other, counts the verdicts, and reports what
happens as a list of events.  Where tests come from and where a new baseline goes is the
business of a *host*; a runner that rebases asks the host to keep the actual output of every
test with an incorrect result.

## Main definitions

* `Summary`: the counts of passed, failed and rebased tests.
* `Host`: how tests are loaded, run and saved.
* `Event`: what a run of the queue reports, in order.
* `Runner.run`: the run itself; its `Session` holds the events, the counts and what the host has
  become.

### Design notes

A session stops at the first test that cannot be loaded and at the first baseline that cannot be
saved; the tests behind it stay in the queue and the end is not reported.  A test whose verdict
asks for a new baseline is counted as rebased before the host is asked to save the baseline, and
that it has been asked is an event, whether it can do so or not.  The counts belong to the
runner, so they go on through all the queues that it runs.
-/

namespace GoldenRom

/-- How many tests have passed, failed and been rebased. -/
structure Summary where
  passed : Nat := 0
  failed : Nat := 0
  rebased : Nat := 0
deriving DecidableEq

/-- Whether no test has failed. -/
def Summary.allPassed (summary : Summary) : Bool :=
  summary.failed == 0

/-- Where tests come from and where new baselines go.  A host is asked with the world as it is,
and saving changes the world. -/
structure Host (World Ref Test Error : Type) where
  /-- The test that an item of the queue stands for. -/
  load : World → Ref → Except Error Test
  /-- The test after a run, with the verdict of that run. -/
  execute : Test → Test × Verdict
  /-- Keeps the actual output of a test as its new expected output. -/
  save : World → Test → Except Error World

/-- What happens in the course of a session. -/
inductive Event (Test : Type) where
  /-- A test has been loaded and is about to run. -/
  | started (test : Test)
  /-- A test has run. -/
  | executed (test : Test)
  | passed (test : Test)
  | failed (test : Test) (verdict : Verdict)
  /-- The host is asked to save the actual output of a test as its expected output. -/
  | saving (test : Test)
  /-- The host has saved it. -/
  | rebased (test : Test)
  /-- The queue is empty. -/
  | finished (summary : Summary)

/-- The option of a runner and its counts so far. -/
structure Runner where
  /-- Whether an incorrect result becomes the new baseline. -/
  rebase : Bool := false
  summary : Summary := {}
deriving DecidableEq

/-- What a run of a queue leaves behind. -/
structure Session (World Ref Test Error : Type) where
  runner : Runner
  world : World
  events : List (Event Test)
  /-- The part of the queue that was not reached. -/
  left : List Ref
  result : Except Error Summary

namespace Session

variable {World Ref Test Error : Type}

/-- The session with events put in front. -/
def after (session : Session World Ref Test Error) (events : List (Event Test)) :
    Session World Ref Test Error :=
  { session with events := events ++ session.events }

end Session

namespace Runner

variable {World Ref Test Error : Type}

/-- Counts a passed test. -/
def countPassed (runner : Runner) : Runner :=
  { runner with summary := { runner.summary with passed := runner.summary.passed + 1 } }

/-- Counts a failed test. -/
def countFailed (runner : Runner) : Runner :=
  { runner with summary := { runner.summary with failed := runner.summary.failed + 1 } }

/-- Counts a rebased test. -/
def countRebased (runner : Runner) : Runner :=
  { runner with summary := { runner.summary with rebased := runner.summary.rebased + 1 } }

/-- Runs the tests of a queue. -/
def run (host : Host World Ref Test Error) (runner : Runner) (world : World) :
    List Ref → Session World Ref Test Error
  | [] =>
      { runner, world, left := []
        events := [.finished runner.summary]
        result := .ok runner.summary }
  | ref :: queue =>
      match host.load world ref with
      | .error error => { runner, world, events := [], left := queue, result := .error error }
      | .ok test =>
          match host.execute test with
          | (executed, .passed) =>
              (run host runner.countPassed world queue).after
                [.started test, .executed executed, .passed executed]
          | (executed, verdict) =>
              if verdict = .incorrectResult ∧ runner.rebase then
                match host.save world executed with
                | .error error =>
                    { runner := runner.countRebased, world, left := queue
                      events := [.started test, .executed executed, .saving executed]
                      result := .error error }
                | .ok world =>
                    (run host runner.countRebased world queue).after
                      [.started test, .executed executed, .saving executed, .rebased executed]
              else
                (run host runner.countFailed world queue).after
                  [.started test, .executed executed, .failed executed verdict]

@[simp] theorem run_nil (host : Host World Ref Test Error) (runner : Runner) (world : World) :
    run host runner world [] =
      { runner, world, left := []
        events := [.finished runner.summary]
        result := .ok runner.summary } := rfl

end Runner

/-- The log line that ends a session. -/
def LogLine.finished (summary : Summary) : LogLine :=
  ⟨.debug, "testing finished: TestSummary \x7b passed: " ++ Numeral.decimal summary.passed ++
    ", failed: " ++ Numeral.decimal summary.failed ++
    ", rebased: " ++ Numeral.decimal summary.rebased ++ " \x7d"⟩

end GoldenRom

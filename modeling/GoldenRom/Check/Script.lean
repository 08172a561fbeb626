import GoldenRom.Check.Runner

/-!
# Scripted sessions

A script is a host without files: its queue is written out beforehand, and it names the tests
whose baselines cannot be saved.  It serves to watch a runner, so every event has a line of
text.

## Main definitions

* `ScriptedTest`: a real output test under a name, or a name with the verdict that it always
  gives.
* `ScriptItem`: a test, or the failure to load one.
* `Script`, `Script.run`: a queue with its host, and the session that a runner makes of it.
* `Script.lines`: the events of a session as text.
-/

namespace GoldenRom

/-- A test that needs no file. -/
inductive ScriptedTest where
  /-- Always the same verdict, without output and without fault. -/
  | fixed (name : String) (verdict : Verdict)
  /-- An output test under a name. -/
  | real (name : String) (test : OutputTest)

namespace ScriptedTest

/-- What a test is called. -/
def name : ScriptedTest → String
  | fixed name _ => name
  | real name _ => name

/-- The verdict that a test shows before or after its run. -/
def verdict? : ScriptedTest → Option Verdict
  | fixed _ verdict => some verdict
  | real _ test => test.verdict?

/-- The actual output of a test, empty if there is none. -/
def actual : ScriptedTest → String
  | fixed _ _ => ""
  | real _ test => test.actual

/-- The engine fault of a test. -/
def fault? : ScriptedTest → Option Fault
  | fixed _ _ => none
  | real _ test => test.fault?

/-- Runs a test. -/
def execute : ScriptedTest → ScriptedTest × Verdict
  | fixed name verdict => (fixed name verdict, verdict)
  | real name test =>
      let (executed, verdict) := test.execute
      (real name executed, verdict)

/-- The log of the latest run of a test. -/
def runLog (least : LogLevel) : ScriptedTest → List LogLine
  | fixed _ _ => []
  | real _ test => test.runLog least

end ScriptedTest

/-- What the queue of a script holds at one place. -/
inductive ScriptItem where
  | test (test : ScriptedTest)
  /-- The test at this place cannot be loaded. -/
  | loadError (message : String)

/-- A queue and its host. -/
structure Script where
  queue : List ScriptItem
  /-- The names of the tests whose baselines cannot be saved. -/
  unsaveable : List String := []
  /-- Whether the host hears only of failures and new baselines. -/
  bare : Bool := false

namespace Script

/-- The host of a script.  Saving changes nothing that a later test could see. -/
def host (script : Script) : Host Unit ScriptItem ScriptedTest String where
  load _ item := match item with
    | .test test => .ok test
    | .loadError message => .error message
  execute := ScriptedTest.execute
  save _ test :=
    if test.name ∈ script.unsaveable then .error ("cannot write " ++ test.name) else .ok ()

/-- The session that a runner makes of a script. -/
def run (script : Script) (runner : Runner) : Session Unit ScriptItem ScriptedTest String :=
  runner.run script.host () script.queue

/-- The line of an event, if the host hears of it. -/
def line? (script : Script) : Event ScriptedTest → Option String
  | .started test =>
      if script.bare then none
      else some ("start " ++ test.name ++ " " ++ (test.verdict?.map Verdict.name).getD "-")
  | .executed _ | .saving _ => none
  | .passed test => if script.bare then none else some ("pass " ++ test.name)
  | .failed test verdict =>
      some ("fail " ++ test.name ++ " " ++ verdict.name ++ " " ++
        (test.fault?.map Fault.message).getD "-")
  | .rebased test => some ("rebase " ++ test.name ++ " " ++ test.actual)
  | .finished summary =>
      if script.bare then none
      else some ("finish " ++ Numeral.decimal summary.passed ++
        "/" ++ Numeral.decimal summary.failed ++ "/" ++ Numeral.decimal summary.rebased)

/-- The lines of a session. -/
def lines (script : Script) (session : Session Unit ScriptItem ScriptedTest String) :
    List String :=
  session.events.filterMap script.line?

/-- What an event leaves in the log. -/
def eventLog (least : LogLevel) : Event ScriptedTest → List LogLine
  | .executed test => test.runLog least
  | .finished summary => LogLine.atLeast least [LogLine.finished summary]
  | _ => []

/-- The log of a session. -/
def log (least : LogLevel) (session : Session Unit ScriptItem ScriptedTest String) :
    List LogLine :=
  session.events.flatMap (eventLog least)

end Script

end GoldenRom

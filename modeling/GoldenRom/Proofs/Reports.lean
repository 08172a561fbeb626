import GoldenRom.Check.Script
import GoldenRom.Proofs.Sessions

/-!
# Reports of a session

A session loads the tests of its queue in order, runs each of them once, and makes one report on
each: that it has passed, that it has failed, or that its actual output has been saved as a new
baseline, which it first asks the host to do.  It goes on until the queue is empty or something
cannot be done, and only in the first case it reports the end.  `Runner.Reports` says so by two
rules about the tests and the world, without mention of the recursion by which a runner goes
about it.

## Main definitions

* `Trial`: a test that has been loaded and run; `Trial.report`, the one report on it.
* `Runner.Tries`: the items of a queue are tried one after the other, and nothing stops the
  session.
* `Runner.Stops`: an item stops the session.
* `Runner.Reports`: the rules for the events, for what is left of the queue, and for the result.
* `Runner.Ends`: the whole session, by the way in which it ends.
* `Summary.plus`: counts enlarged by what some events report.
* `Runner.sessions`: the sessions of a runner that is given one queue after the other.

## Main results

* `Runner.run_append_of_tries`: a session may be taken up behind any items that do not stop it.
* `Runner.reports_iff`: the rules are those of a session.
* `Runner.every_test_reported_once`: events, counts, and queues in parts.
-/

namespace GoldenRom

variable {World Ref Test Error : Type}

namespace Event

/-- Whether a test is reported as passed. -/
def isPassed : Event Test → Bool
  | passed _ => true
  | _ => false

/-- Whether a test is reported as failed. -/
def isFailed : Event Test → Bool
  | failed _ _ => true
  | _ => false

/-- Whether a baseline is reported as saved. -/
def isRebased : Event Test → Bool
  | rebased _ => true
  | _ => false

/-- Whether the end of the queue is reported. -/
def isFinished : Event Test → Bool
  | finished _ => true
  | _ => false

end Event

/-- Counts enlarged by the reports among some events. -/
def Summary.plus (summary : Summary) (events : List (Event Test)) : Summary where
  passed := summary.passed + events.countP Event.isPassed
  failed := summary.failed + events.countP Event.isFailed
  rebased := summary.rebased + events.countP Event.isRebased

/-- How many tests have been counted in one way or another. -/
def Summary.total (summary : Summary) : Nat :=
  summary.passed + summary.failed + summary.rebased

theorem Summary.plus_append (summary : Summary) (first second : List (Event Test)) :
    summary.plus (first ++ second) = (summary.plus first).plus second := by
  simp only [plus, List.countP_append, Nat.add_assoc]

/-- The events of a session that concern one of its tests. -/
def Session.testEvents (session : Session World Ref Test Error) : List (Event Test) :=
  session.events.filter (!·.isFinished)

/-- What is put in front of a session may itself be what another session tells about its
tests. -/
theorem Session.testEvents_after (session first : Session World Ref Test Error) :
    (session.after first.testEvents).testEvents = first.testEvents ++ session.testEvents := by
  rw [testEvents, after, List.filter_append, testEvents, List.filter_filter]
  simp only [Bool.and_self]
  rfl

@[simp] theorem Session.after_after (session : Session World Ref Test Error)
    (first second : List (Event Test)) :
    (session.after second).after first = session.after (first ++ second) := by
  simp only [after, List.append_assoc]

/-- A session ends without an error. -/
def Session.Succeeds (session : Session World Ref Test Error) : Prop :=
  ∃ summary, session.result = .ok summary

/-- A test that has been loaded and run. -/
structure Trial (Test : Type) where
  loaded : Test
  /-- The test after its run. -/
  executed : Test
  /-- What the run has returned. -/
  verdict : Verdict

namespace Trial

/-- The one report on a test, where `rebase` tells whether an incorrect result becomes the new
baseline. -/
def report (rebase : Bool) (trial : Trial Test) : Event Test :=
  if trial.verdict = .passed then .passed trial.executed
  else if trial.verdict = .incorrectResult ∧ rebase = true then .rebased trial.executed
  else .failed trial.executed trial.verdict

theorem report_eq (rebase : Bool) (trial : Trial Test) :
    trial.report rebase = .passed trial.executed ∨
      trial.report rebase = .rebased trial.executed ∨
      trial.report rebase = .failed trial.executed trial.verdict := by
  rw [report]
  split
  · exact .inl rfl
  · split
    · exact .inr (.inl rfl)
    · exact .inr (.inr rfl)

/-- The host is asked to save a test if its verdict asks for a new baseline. -/
def attempt (rebase : Bool) (trial : Trial Test) : List (Event Test) :=
  if trial.verdict = .incorrectResult ∧ rebase = true then [.saving trial.executed] else []

theorem attempt_eq (rebase : Bool) (trial : Trial Test) :
    trial.attempt rebase = [] ∨ trial.attempt rebase = [.saving trial.executed] := by
  rw [attempt]
  split
  · exact .inr rfl
  · exact .inl rfl

/-- All that is told about a test. -/
def events (rebase : Bool) (trial : Trial Test) : List (Event Test) :=
  [.started trial.loaded, .executed trial.executed] ++ trial.attempt rebase ++
    [trial.report rebase]

end Trial

namespace Runner

/-! ## The rules -/

/-- The items of a queue are tried one after the other.  Each stands for a test that can be
loaded, and every baseline that is asked for can be saved, which is all that changes the
world. -/
inductive Tries (host : Host World Ref Test Error) (rebase : Bool) :
    World → List Ref → List (Trial Test) → World → Prop
  | nil (world : World) : Tries host rebase world [] [] world
  /-- The test is reported, and its baseline stays. -/
  | kept {world final : World} {ref : Ref} {queue : List Ref} {loaded executed : Test}
      {verdict : Verdict} {trials : List (Trial Test)}
      (hload : host.load world ref = .ok loaded)
      (hexecute : host.execute loaded = (executed, verdict))
      (hkeep : ¬(verdict = .incorrectResult ∧ rebase = true))
      (hrest : Tries host rebase world queue trials final) :
      Tries host rebase world (ref :: queue) (⟨loaded, executed, verdict⟩ :: trials) final
  /-- The actual output is saved. -/
  | saved {world saved final : World} {ref : Ref} {queue : List Ref} {loaded executed : Test}
      {trials : List (Trial Test)} (hload : host.load world ref = .ok loaded)
      (hexecute : host.execute loaded = (executed, .incorrectResult))
      (hrebase : rebase = true) (hsave : host.save world executed = .ok saved)
      (hrest : Tries host rebase saved queue trials final) :
      Tries host rebase world (ref :: queue)
        (⟨loaded, executed, .incorrectResult⟩ :: trials) final

/-- An item of a queue stops a session with an error, after some events. -/
inductive Stops (host : Host World Ref Test Error) (rebase : Bool) (world : World) (ref : Ref) :
    List (Event Test) → Error → Prop
  /-- The test cannot be loaded. -/
  | unloaded {error : Error} (hload : host.load world ref = .error error) :
      Stops host rebase world ref [] error
  /-- The test has an incorrect result, and its actual output cannot be saved. -/
  | unsaved {loaded executed : Test} {error : Error} (hload : host.load world ref = .ok loaded)
      (hexecute : host.execute loaded = (executed, .incorrectResult)) (hrebase : rebase = true)
      (hsave : host.save world executed = .error error) :
      Stops host rebase world ref [.started loaded, .executed executed, .saving executed] error

/-- What a session tells, what it leaves of the queue, and what it returns. -/
inductive Reports (host : Host World Ref Test Error) (runner : Runner) (world : World)
    (queue : List Ref) :
    List (Event Test) → List Ref → Except Error Summary → Prop
  /-- All items are tried.  The end comes last, with the counts enlarged by the reports. -/
  | finished {trials : List (Trial Test)} {final : World}
      (htries : Tries host runner.rebase world queue trials final) :
      Reports host runner world queue
        (trials.flatMap (Trial.events runner.rebase) ++
          [.finished (runner.summary.plus (trials.map (Trial.report runner.rebase)))])
        [] (.ok (runner.summary.plus (trials.map (Trial.report runner.rebase))))
  /-- The first item that stops the session is the last that it looks at. -/
  | stopped {done left : List Ref} {ref : Ref} {trials : List (Trial Test)} {reached : World}
      {events : List (Event Test)} {error : Error} (hqueue : queue = done ++ ref :: left)
      (htries : Tries host runner.rebase world done trials reached)
      (hstops : Stops host runner.rebase reached ref events error) :
      Reports host runner world queue (trials.flatMap (Trial.events runner.rebase) ++ events)
        left (.error error)

variable {host : Host World Ref Test Error} {runner : Runner} {rebase : Bool}
  {world reached : World} {ref : Ref} {queue : List Ref} {trials : List (Trial Test)}

/-- A queue has a front whose items are tried, and the first item behind it, if there is one,
stops the session. -/
theorem exists_tries (host : Host World Ref Test Error) (rebase : Bool) (world : World)
    (queue : List Ref) :
    ∃ done rest trials reached, queue = done ++ rest ∧
      Tries host rebase world done trials reached ∧
      ∀ ref left, rest = ref :: left → ∃ events error,
        Stops host rebase reached ref events error := by
  induction queue generalizing world with
  | nil => exact ⟨[], [], [], world, rfl, .nil world, nofun⟩
  | cons ref queue ih =>
      have hstop : ∀ {events error}, Stops host rebase world ref events error →
          ∃ done rest trials reached, ref :: queue = done ++ rest ∧
            Tries host rebase world done trials reached ∧
            ∀ first left, rest = first :: left → ∃ events error,
              Stops host rebase reached first events error := by
        intro events error hstops
        refine ⟨[], ref :: queue, [], world, rfl, .nil world, ?_⟩
        intro first left hrest
        obtain rfl := List.head_eq_of_cons_eq hrest
        exact ⟨events, error, hstops⟩
      cases hload : host.load world ref with
      | error error => exact hstop (.unloaded hload)
      | ok loaded =>
          cases hexecute : host.execute loaded with
          | mk executed verdict =>
              by_cases hsaves : verdict = .incorrectResult ∧ rebase = true
              · obtain ⟨rfl, hrebase⟩ := hsaves
                cases hsave : host.save world executed with
                | error error => exact hstop (.unsaved hload hexecute hrebase hsave)
                | ok saved =>
                    obtain ⟨done, rest, trials, reached, rfl, htries, hstops⟩ := ih saved
                    exact ⟨ref :: done, rest, _, reached, rfl,
                      .saved hload hexecute hrebase hsave htries, hstops⟩
              · obtain ⟨done, rest, trials, reached, rfl, htries, hstops⟩ := ih world
                exact ⟨ref :: done, rest, _, reached, rfl,
                  .kept hload hexecute hsaves htries, hstops⟩

/-! ## Taking up a session behind its first items -/

/-- A runner that has counted the reports on some trials. -/
def counting (runner : Runner) (trials : List (Trial Test)) : Runner :=
  { runner with summary := runner.summary.plus (trials.map (Trial.report runner.rebase)) }

theorem counting_cons (runner : Runner) (trial : Trial Test) (trials : List (Trial Test)) :
    runner.counting (trial :: trials) = (runner.counting [trial]).counting trials := by
  rw [counting, List.map_cons, ← List.singleton_append, Summary.plus_append]
  rfl

/-- A turn of a test whose baseline stays. -/
theorem run_cons_of_kept {loaded executed : Test} {verdict : Verdict} (queue : List Ref)
    (hload : host.load world ref = .ok loaded)
    (hexecute : host.execute loaded = (executed, verdict))
    (hkeep : ¬(verdict = .incorrectResult ∧ runner.rebase = true)) :
    run host runner world (ref :: queue) =
      (run host (runner.counting [⟨loaded, executed, verdict⟩]) world queue).after
        (Trial.events runner.rebase ⟨loaded, executed, verdict⟩) := by
  obtain ⟨rebase, summary⟩ := runner
  rw [run, hload]
  dsimp only
  rw [hexecute]
  cases verdict with
  | incorrectResult =>
      obtain rfl : rebase = false := Bool.eq_false_iff.2 fun hrebase => hkeep ⟨rfl, hrebase⟩
      rfl
  | passed | timedOut | threwError => rfl

/-- A turn of a test whose actual output is saved. -/
theorem run_cons_of_saved {loaded executed : Test} {saved : World} (queue : List Ref)
    (hload : host.load world ref = .ok loaded)
    (hexecute : host.execute loaded = (executed, .incorrectResult))
    (hrebase : runner.rebase = true) (hsave : host.save world executed = .ok saved) :
    run host runner world (ref :: queue) =
      (run host (runner.counting [⟨loaded, executed, .incorrectResult⟩]) saved queue).after
        (Trial.events runner.rebase ⟨loaded, executed, .incorrectResult⟩) := by
  obtain ⟨rebase, summary⟩ := runner
  obtain rfl : rebase = true := hrebase
  exact run_cons_eq_of_rebased rfl queue hload hexecute hsave

/-- **A session may be taken up behind its first items** if these are tried: with the world that
their baselines have made, and with their reports counted. -/
theorem run_append_of_tries (hrebase : runner.rebase = rebase)
    (htries : Tries host rebase world queue trials reached) (rest : List Ref) :
    run host runner world (queue ++ rest) =
      (run host (runner.counting trials) reached rest).after
        (trials.flatMap (Trial.events rebase)) := by
  induction htries generalizing runner with
  | nil world => rfl
  | @kept world final ref queue loaded executed verdict trials hload hexecute hkeep _ ih =>
      subst hrebase
      have hrest := @ih (runner.counting [⟨loaded, executed, verdict⟩]) rfl
      rw [List.cons_append, run_cons_of_kept _ hload hexecute hkeep, hrest, ← counting_cons,
        Session.after_after, List.flatMap_cons]
  | @saved world saved final ref queue loaded executed trials hload hexecute hrebases
      hsave _ ih =>
      subst hrebase
      have hrest := @ih (runner.counting [⟨loaded, executed, .incorrectResult⟩]) rfl
      rw [List.cons_append, run_cons_of_saved _ hload hexecute hrebases hsave, hrest,
        ← counting_cons, Session.after_after, List.flatMap_cons]

/-- A session whose items are all tried. -/
theorem run_of_tries (htries : Tries host runner.rebase world queue trials reached) :
    run host runner world queue =
      { runner := runner.counting trials, world := reached, left := []
        events := trials.flatMap (Trial.events runner.rebase) ++
          [.finished (runner.counting trials).summary]
        result := .ok (runner.counting trials).summary } := by
  have hrun := run_append_of_tries rfl htries []
  rwa [List.append_nil] at hrun

/-- A session that stops at a test that cannot be loaded. -/
theorem run_of_unloaded {error : Error}
    (htries : Tries host runner.rebase world queue trials reached)
    (hload : host.load reached ref = .error error) (left : List Ref) :
    run host runner world (queue ++ ref :: left) =
      { runner := runner.counting trials, world := reached, left
        events := trials.flatMap (Trial.events runner.rebase)
        result := .error error } := by
  rw [run_append_of_tries rfl htries, run, hload, Session.after, List.append_nil]

/-- A session that stops at a baseline that cannot be saved.  The baseline has been counted by
then. -/
theorem run_of_unsaved {loaded executed : Test} {error : Error}
    (htries : Tries host runner.rebase world queue trials reached)
    (hload : host.load reached ref = .ok loaded)
    (hexecute : host.execute loaded = (executed, .incorrectResult))
    (hrebase : runner.rebase = true) (hsave : host.save reached executed = .error error)
    (left : List Ref) :
    run host runner world (queue ++ ref :: left) =
      { runner := (runner.counting trials).countRebased, world := reached, left
        events := trials.flatMap (Trial.events runner.rebase) ++
          [.started loaded, .executed executed, .saving executed]
        result := .error error } := by
  have hcounting : (runner.counting trials).rebase = true := hrebase
  rw [run_append_of_tries rfl htries,
    run_cons_eq_of_unsaved hcounting left hload hexecute hsave]
  rfl

/-! ## The ends of a session -/

/-- The three ends of a session, with the counts that the runner has by then. -/
inductive Ends (host : Host World Ref Test Error) (runner : Runner) (world : World) :
    List Ref → Session World Ref Test Error → Prop
  /-- All items have been tried. -/
  | finished {queue : List Ref} {trials : List (Trial Test)} {final : World}
      (htries : Tries host runner.rebase world queue trials final) :
      Ends host runner world queue
        { runner := runner.counting trials, world := final, left := []
          events := trials.flatMap (Trial.events runner.rebase) ++
            [.finished (runner.counting trials).summary]
          result := .ok (runner.counting trials).summary }
  /-- A test cannot be loaded. -/
  | unloaded {done left : List Ref} {ref : Ref} {trials : List (Trial Test)} {reached : World}
      {error : Error} (htries : Tries host runner.rebase world done trials reached)
      (hload : host.load reached ref = .error error) :
      Ends host runner world (done ++ ref :: left)
        { runner := runner.counting trials, world := reached, left
          events := trials.flatMap (Trial.events runner.rebase)
          result := .error error }
  /-- A baseline cannot be saved. -/
  | unsaved {done left : List Ref} {ref : Ref} {trials : List (Trial Test)} {reached : World}
      {loaded executed : Test} {error : Error}
      (htries : Tries host runner.rebase world done trials reached)
      (hload : host.load reached ref = .ok loaded)
      (hexecute : host.execute loaded = (executed, .incorrectResult))
      (hrebase : runner.rebase = true) (hsave : host.save reached executed = .error error) :
      Ends host runner world (done ++ ref :: left)
        { runner := (runner.counting trials).countRebased, world := reached, left
          events := trials.flatMap (Trial.events runner.rebase) ++
          [.started loaded, .executed executed, .saving executed]
          result := .error error }

/-- Every session ends in one of the three ways. -/
theorem ends_run (host : Host World Ref Test Error) (runner : Runner) (world : World)
    (queue : List Ref) :
    Ends host runner world queue (run host runner world queue) := by
  obtain ⟨done, rest, trials, reached, rfl, htries, hstops⟩ :=
    exists_tries host runner.rebase world queue
  cases rest with
  | nil =>
      rw [List.append_nil, run_of_tries htries]
      exact .finished htries
  | cons ref left =>
      obtain ⟨events, error, hstops⟩ := hstops ref left rfl
      cases hstops with
      | unloaded hload =>
          rw [run_of_unloaded htries hload]
          exact .unloaded htries hload
      | unsaved hload hexecute hrebase hsave =>
          rw [run_of_unsaved htries hload hexecute hrebase hsave]
          exact .unsaved htries hload hexecute hrebase hsave

/-- Every session follows the rules. -/
theorem reports_run (host : Host World Ref Test Error) (runner : Runner) (world : World)
    (queue : List Ref) :
    Reports host runner world queue (run host runner world queue).events
      (run host runner world queue).left
      (run host runner world queue).result := by
  have hends := ends_run host runner world queue
  generalize run host runner world queue = session at hends ⊢
  cases hends with
  | finished htries => exact .finished htries
  | @unloaded done left ref trials reached error htries hload =>
      rw [← List.append_nil (trials.flatMap _)]
      exact .stopped rfl htries (.unloaded hload)
  | unsaved htries hload hexecute hrebase hsave =>
      exact .stopped rfl htries (.unsaved hload hexecute hrebase hsave)

/-- A session does what a rule says. -/
theorem run_of_reports {events : List (Event Test)} {left : List Ref}
    {result : Except Error Summary}
    (hreports : Reports host runner world queue events left result) :
    (run host runner world queue).events = events ∧ (run host runner world queue).left = left ∧
      (run host runner world queue).result = result := by
  cases hreports with
  | finished htries =>
      rw [run_of_tries htries]
      exact ⟨rfl, rfl, rfl⟩
  | stopped hqueue htries hstops =>
      rw [hqueue]
      cases hstops with
      | unloaded hload =>
          rw [run_of_unloaded htries hload, List.append_nil]
          exact ⟨rfl, rfl, rfl⟩
      | unsaved hload hexecute hrebase hsave =>
          rw [run_of_unsaved htries hload hexecute hrebase hsave]
          exact ⟨rfl, rfl, rfl⟩

/-- **The meaning of a session.**  What it tells, what it leaves of the queue and what it
returns are what a rule says, and no rule says anything else. -/
theorem reports_iff {events : List (Event Test)} {left : List Ref}
    {result : Except Error Summary} :
    ((run host runner world queue).events = events ∧ (run host runner world queue).left = left ∧
        (run host runner world queue).result = result) ↔
      Reports host runner world queue events left result := by
  constructor
  · rintro ⟨rfl, rfl, rfl⟩
    exact reports_run host runner world queue
  · intro hreports
    exact run_of_reports hreports

/-! ## The counts -/

/-- Besides its report, no event of a test counts. -/
theorem plus_events (summary : Summary) (rebase : Bool) (trial : Trial Test) :
    summary.plus (trial.events rebase) = summary.plus [trial.report rebase] := by
  rw [Trial.events]
  obtain hattempt | hattempt := trial.attempt_eq rebase <;> rw [hattempt] <;> rfl

theorem plus_flatMap_events (summary : Summary) (rebase : Bool) (trials : List (Trial Test)) :
    summary.plus (trials.flatMap (Trial.events rebase)) =
      summary.plus (trials.map (Trial.report rebase)) := by
  induction trials generalizing summary with
  | nil => rfl
  | cons trial trials ih =>
      rw [List.flatMap_cons, List.map_cons, ← List.singleton_append, Summary.plus_append,
        Summary.plus_append, ih, plus_events]

theorem summary_counting (runner : Runner) (trials : List (Trial Test)) :
    (runner.counting trials).summary =
      runner.summary.plus (trials.flatMap (Trial.events runner.rebase)) := by
  rw [plus_flatMap_events]
  rfl

/-- One report counts once. -/
theorem total_plus_report (summary : Summary) (rebase : Bool) (trial : Trial Test) :
    (summary.plus [trial.report rebase]).total = summary.total + 1 := by
  rw [Summary.total, Summary.total]
  obtain hreport | hreport | hreport := trial.report_eq rebase
  · rw [hreport]
    show summary.passed + 1 + summary.failed + summary.rebased = _
    omega
  · rw [hreport]
    show summary.passed + summary.failed + (summary.rebased + 1) = _
    omega
  · rw [hreport]
    show summary.passed + (summary.failed + 1) + summary.rebased = _
    omega

/-- Every trial counts once. -/
theorem total_plus_map_report (summary : Summary) (rebase : Bool) (trials : List (Trial Test)) :
    (summary.plus (trials.map (Trial.report rebase))).total =
      summary.total + trials.length := by
  induction trials generalizing summary with
  | nil => rfl
  | cons trial trials ih =>
      rw [List.map_cons, ← List.singleton_append, Summary.plus_append, ih, total_plus_report,
        List.length_cons]
      omega

theorem Tries.length_eq {final : World} (htries : Tries host rebase world queue trials final) :
    trials.length = queue.length := by
  induction htries with
  | nil world => rfl
  | kept _ _ _ _ ih => rw [List.length_cons, List.length_cons, ih]
  | saved _ _ _ _ _ ih => rw [List.length_cons, List.length_cons, ih]

/-- A session without an error has tried all items. -/
theorem exists_tries_of_succeeds (hsucceeds : (run host runner world queue).Succeeds) :
    ∃ trials final, Tries host runner.rebase world queue trials final := by
  obtain ⟨summary, hresult⟩ := hsucceeds
  have hends := ends_run host runner world queue
  generalize run host runner world queue = session at hends hresult
  cases hends with
  | finished htries => exact ⟨_, _, htries⟩
  | unloaded | unsaved => cases hresult

/-- A session without an error returns the counts of its runner, enlarged by its reports. -/
theorem counts_of_result_eq_ok {summary : Summary}
    (hresult : (run host runner world queue).result = .ok summary) :
    (run host runner world queue).runner.summary = summary ∧
      summary = runner.summary.plus (run host runner world queue).events ∧
      summary.total = runner.summary.total + queue.length := by
  obtain ⟨trials, final, htries⟩ := exists_tries_of_succeeds ⟨summary, hresult⟩
  rw [run_of_tries htries] at hresult ⊢
  obtain rfl := Except.ok.inj hresult
  refine ⟨rfl, ?_, ?_⟩
  · rw [Summary.plus_append, ← summary_counting]
    rfl
  · rw [← htries.length_eq]
    exact total_plus_map_report _ _ _

/-! ## Queues in parts -/

/-- No event of a test reports the end of the queue. -/
theorem filter_events (rebase : Bool) (trial : Trial Test) :
    (trial.events rebase).filter (!·.isFinished) = trial.events rebase := by
  rw [Trial.events]
  obtain hattempt | hattempt := trial.attempt_eq rebase <;>
    obtain hreport | hreport | hreport := trial.report_eq rebase <;>
        rw [hattempt, hreport] <;> rfl

/-- A queue may be cut where the session in front has ended without an error. -/
theorem run_append_of_succeeds {first : List Ref}
    (hfirst : (run host runner world first).Succeeds) (second : List Ref) :
    run host runner world (first ++ second) =
      (run host (run host runner world first).runner (run host runner world first).world
        second).after
        (run host runner world first).testEvents := by
  obtain ⟨trials, final, htries⟩ := exists_tries_of_succeeds hfirst
  have hevents : (run host runner world first).testEvents =
      trials.flatMap (Trial.events runner.rebase) := by
    rw [run_of_tries htries, Session.testEvents, List.filter_append, List.filter_flatMap]
    simp only [filter_events]
    exact List.append_nil _
  rw [hevents, run_append_of_tries rfl htries, run_of_tries htries]

/-- A session succeeds on a queue in two parts if and only if it succeeds on the first and,
going on from there, on the second. -/
theorem succeeds_append_iff {first second : List Ref} :
    (run host runner world (first ++ second)).Succeeds ↔
      (run host runner world first).Succeeds ∧
        (run host (run host runner world first).runner (run host runner world first).world
          second).Succeeds := by
  have hboth : (run host runner world first).Succeeds →
      ((run host runner world (first ++ second)).Succeeds ↔
        (run host (run host runner world first).runner (run host runner world first).world
          second).Succeeds) := by
    intro hfirst
    rw [run_append_of_succeeds hfirst]
    rfl
  refine ⟨fun hsucceeds => ?_, fun ⟨hfirst, hsecond⟩ => (hboth hfirst).2 hsecond⟩
  -- What stops a session on the first part stops it on the whole queue as well.
  have hfirst : (run host runner world first).Succeeds := by
    have hends := ends_run host runner world first
    generalize run host runner world first = session at hends ⊢
    obtain ⟨summary, hresult⟩ := hsucceeds
    cases hends with
    | finished htries => exact ⟨_, rfl⟩
    | unloaded htries hload =>
        rw [List.append_assoc, List.cons_append, run_of_unloaded htries hload] at hresult
        cases hresult
    | unsaved htries hload hexecute hrebase hsave =>
        rw [List.append_assoc, List.cons_append,
          run_of_unsaved htries hload hexecute hrebase hsave] at hresult
        cases hresult
  exact ⟨hfirst, (hboth hfirst).1 hsucceeds⟩

/-- The sessions of a runner that is given one queue after the other.  Each goes on with the
counts and with the world of the one before. -/
def sessions (host : Host World Ref Test Error) :
    Runner → World → List (List Ref) → List (Session World Ref Test Error)
  | _, _, [] => []
  | runner, world, queue :: queues =>
      run host runner world queue ::
        sessions host (run host runner world queue).runner
          (run host runner world queue).world queues

/-- A session succeeds on a queue in parts if and only if all sessions on the parts do. -/
theorem succeeds_flatten_iff (queues : List (List Ref)) (runner : Runner) (world : World) :
    (run host runner world queues.flatten).Succeeds ↔
      ∀ session ∈ sessions host runner world queues, session.Succeeds := by
  induction queues generalizing runner world with
  | nil =>
      refine ⟨fun _ => nofun, fun _ => ?_⟩
      exact ⟨runner.summary, rfl⟩
  | cons queue queues ih =>
      rw [List.flatten_cons, succeeds_append_iff, ih, sessions, List.forall_mem_cons]

/-- **The sessions on the parts of a queue are the session on the queue**, if none of them
fails. -/
theorem run_flatten (queues : List (List Ref)) (runner : Runner) (world : World)
    (hsucceeds : ∀ session ∈ sessions host runner world queues, session.Succeeds) :
    (run host runner world queues.flatten).runner =
        ((sessions host runner world queues).map Session.runner).getLastD runner ∧
      (run host runner world queues.flatten).testEvents =
        (sessions host runner world queues).flatMap Session.testEvents := by
  induction queues generalizing runner world with
  | nil => exact ⟨rfl, rfl⟩
  | cons queue queues ih =>
      rw [sessions, List.forall_mem_cons] at hsucceeds
      obtain ⟨hfirst, hrest⟩ := hsucceeds
      obtain ⟨hrunner, hevents⟩ := ih _ _ hrest
      rw [List.flatten_cons, run_append_of_succeeds hfirst, sessions, List.map_cons,
        List.getLastD_cons, List.flatMap_cons]
      refine ⟨hrunner, ?_⟩
      rw [Session.testEvents_after, ← hevents]

/-- **Every test of a session is reported once.**  The events of a session, what it leaves of
its queue and what it returns are those of the rules.  A session without an error returns the
counts of its runner, which have grown by one for each report and for each item of the queue.  A
queue may be given to the runner in parts: nothing fails in one session if and only if nothing
fails in the sessions on the parts, and then these lead to the same counts and tell the same
about the tests. -/
theorem every_test_reported_once (host : Host World Ref Test Error) (runner : Runner)
    (world : World) (queue : List Ref) :
    (∀ events left result,
        ((run host runner world queue).events = events ∧
          (run host runner world queue).left = left ∧
            (run host runner world queue).result = result) ↔
          Reports host runner world queue events left result) ∧
      (∀ summary, (run host runner world queue).result = .ok summary →
        (run host runner world queue).runner.summary = summary ∧
          summary = runner.summary.plus (run host runner world queue).events ∧
          summary.total = runner.summary.total + queue.length) ∧
      ∀ queues, queue = queues.flatten →
        ((run host runner world queue).Succeeds ↔
            ∀ session ∈ sessions host runner world queues, session.Succeeds) ∧
          ((run host runner world queue).Succeeds →
            (run host runner world queue).runner =
                ((sessions host runner world queues).map Session.runner).getLastD runner ∧
              (run host runner world queue).testEvents =
                (sessions host runner world queues).flatMap Session.testEvents) := by
  refine ⟨fun events left result => reports_iff,
    fun summary hresult => counts_of_result_eq_ok hresult, ?_⟩
  rintro queues rfl
  refine ⟨succeeds_flatten_iff queues runner world, fun hsucceeds => ?_⟩
  exact run_flatten queues runner world ((succeeds_flatten_iff queues runner world).1 hsucceeds)

/-- A script of three tests: the first passes, the second has an incorrect result, and the third
does not halt. -/
def threeVerdicts : Script where
  queue := [.test (.fixed "a" .passed), .test (.fixed "b" .incorrectResult),
    .test (.fixed "c" .timedOut)]

/-- A runner that has counted before and rebases takes the script in one queue or in two. -/
theorem every_test_reported_once_when_rebasing :
    (run threeVerdicts.host ⟨true, ⟨4, 5, 6⟩⟩ () threeVerdicts.queue).result = .ok ⟨5, 6, 7⟩ ∧
      (⟨5, 6, 7⟩ : Summary).total = (⟨4, 5, 6⟩ : Summary).total + threeVerdicts.queue.length ∧
      (run threeVerdicts.host ⟨true, ⟨4, 5, 6⟩⟩ () threeVerdicts.queue).testEvents =
        (sessions threeVerdicts.host ⟨true, ⟨4, 5, 6⟩⟩ ()
          [threeVerdicts.queue.take 1, threeVerdicts.queue.drop 1]).flatMap
            Session.testEvents := by
  obtain ⟨-, hcounts, hparts⟩ :=
    every_test_reported_once threeVerdicts.host ⟨true, ⟨4, 5, 6⟩⟩ () threeVerdicts.queue
  have hresult : (run threeVerdicts.host ⟨true, ⟨4, 5, 6⟩⟩ () threeVerdicts.queue).result =
      .ok ⟨5, 6, 7⟩ := rfl
  obtain ⟨-, -, htotal⟩ := hcounts ⟨5, 6, 7⟩ hresult
  obtain ⟨-, hparts⟩ := hparts [threeVerdicts.queue.take 1, threeVerdicts.queue.drop 1] rfl
  exact ⟨hresult, htotal, (hparts ⟨_, hresult⟩).2⟩

end Runner

end GoldenRom

import GoldenRom.Proofs.Reports

/-!
# Tallies of a runner

The counts of a runner go on from session to session, also behind sessions that have failed.
Passed and failed tests are counted together with their reports, so these two counts are always
right.  A baseline is counted before it is saved, and if that fails, then the session ends
there: it has run a test that it does not report, but has counted.  Such a session is told by
its last event.  The count stays with the runner, and later summaries contain it.

## Main definitions

* `Job`: a queue with its host and its world; `Job.session`, what a runner makes of it.
* `Session.endsUnreported`: the last that a session tells is an attempt to save.
* `Runner.afterJobs`, `Runner.work`: a runner behind some jobs, and its sessions on them.

## Main results

* `Runner.endsUnreported_iff`: a session ends unreported if and only if a baseline could not be
  saved.
* `Runner.summary_run`: what one session adds to the counts.
* `Runner.summary_afterJobs`: what some sessions add to the counts.
* `Runner.counts_follow_reports`: the counts of a runner behind any jobs.
-/

namespace GoldenRom

variable {World Ref Test Error : Type}

/-- Whether the host is asked to save a baseline. -/
def Event.isSaving : Event Test → Bool
  | saving _ => true
  | _ => false

theorem Event.isSome_rebased? (event : Event Test) :
    event.rebased?.isSome = event.isRebased := by
  cases event <;> rfl

/-- The last that a session tells is that it has asked for a baseline to be saved. -/
def Session.endsUnreported (session : Session World Ref Test Error) : Bool :=
  session.events.getLast?.any Event.isSaving

/-- The saved baselines are those that the events report. -/
theorem Session.length_rebased (session : Session World Ref Test Error) :
    session.rebased.length = session.events.countP Event.isRebased := by
  rw [rebased, List.length_filterMap_eq_countP]
  simp only [Event.isSome_rebased?]

/-- Counts with some baselines that have been counted and not saved. -/
def Summary.withUnsaved (summary : Summary) (baselines : Nat) : Summary :=
  { summary with rebased := summary.rebased + baselines }

theorem Summary.plus_withUnsaved (summary : Summary) (baselines : Nat)
    (events : List (Event Test)) :
    (summary.withUnsaved baselines).plus events =
      (summary.plus events).withUnsaved baselines := by
  simp only [plus, withUnsaved, Nat.add_right_comm]

theorem Summary.withUnsaved_withUnsaved (summary : Summary) (first second : Nat) :
    (summary.withUnsaved first).withUnsaved second = summary.withUnsaved (first + second) := by
  simp only [withUnsaved, Nat.add_assoc]

/-- Counts enlarged by the reports of a session, and by a baseline that the session has counted
without a report. -/
def Session.tally (session : Session World Ref Test Error) (summary : Summary) : Summary :=
  (summary.plus session.events).withUnsaved session.endsUnreported.toNat

/-- A session has stopped at a test with an incorrect result whose actual output could not be
saved. -/
def Session.Unsaved (host : Host World Ref Test Error) (rebase : Bool) (queue : List Ref)
    (session : Session World Ref Test Error) : Prop :=
  ∃ done ref loaded executed error, queue = done ++ ref :: session.left ∧
    host.load session.world ref = .ok loaded ∧
    host.execute loaded = (executed, .incorrectResult) ∧ rebase = true ∧
    host.save session.world executed = .error error ∧ session.result = .error error

/-- A queue with the host and the world in which it is run. -/
structure Job (World Ref Test Error : Type) where
  host : Host World Ref Test Error
  world : World
  queue : List Ref

/-- A script as a job. -/
def Script.job (script : Script) : Job Unit ScriptItem ScriptedTest String :=
  ⟨script.host, (), script.queue⟩

/-- The session that a runner makes of a job. -/
def Job.session (job : Job World Ref Test Error) (runner : Runner) :
    Session World Ref Test Error :=
  runner.run job.host job.world job.queue

namespace Runner

variable {host : Host World Ref Test Error} {runner : Runner} {world : World} {queue : List Ref}

/-! ## One session -/

/-- The last of the events of trials is a report. -/
theorem any_getLast?_flatMap_events (rebase : Bool) (trials : List (Trial Test)) :
    (trials.flatMap (Trial.events rebase)).getLast?.any Event.isSaving = false := by
  obtain rfl | ⟨before, trial, rfl⟩ := trials.eq_nil_or_concat
  · rfl
  · have hreport : (trial.report rebase).isSaving = false := by
      obtain h | h | h := trial.report_eq rebase <;> rw [h] <;> rfl
    rw [List.concat_eq_append, List.flatMap_append, List.flatMap_singleton, Trial.events,
      ← List.append_assoc, List.getLast?_concat]
    exact hreport

/-- **A session ends unreported if and only if a baseline could not be saved.** -/
theorem endsUnreported_iff :
    (run host runner world queue).endsUnreported = true ↔
      (run host runner world queue).Unsaved host runner.rebase queue := by
  have hends := ends_run host runner world queue
  generalize run host runner world queue = session at hends ⊢
  cases hends with
  | @finished queue trials final htries =>
      rw [Session.endsUnreported, List.getLast?_concat]
      refine ⟨nofun, ?_⟩
      rintro ⟨done, ref, loaded, executed, error, -, -, -, -, -, hresult⟩
      cases hresult
  | @unloaded done left ref trials reached error htries hload =>
      rw [Session.endsUnreported, any_getLast?_flatMap_events]
      refine ⟨nofun, ?_⟩
      rintro ⟨before, first, loaded, executed, error', hqueue, hloaded, -⟩
      obtain ⟨-, hitems⟩ := List.append_inj' hqueue rfl
      obtain rfl := List.head_eq_of_cons_eq hitems
      rw [hload] at hloaded
      cases hloaded
  | @unsaved done left ref trials reached loaded executed error htries hload hexecute
      hrebase hsave =>
      rw [Session.endsUnreported, List.getLast?_append]
      exact ⟨fun _ => ⟨done, ref, loaded, executed, error, rfl, hload, hexecute, hrebase, hsave,
        rfl⟩, fun _ => rfl⟩

/-- A session that ends without an error has reported on all its tests. -/
theorem endsUnreported_of_result_eq_ok {summary : Summary}
    (hresult : (run host runner world queue).result = .ok summary) :
    (run host runner world queue).endsUnreported = false := by
  rw [Bool.eq_false_iff]
  intro hunreported
  obtain ⟨_, _, _, _, _, -, -, -, -, -, herror⟩ := endsUnreported_iff.1 hunreported
  rw [hresult] at herror
  cases herror

/-- **What a session adds to the counts of its runner.** -/
theorem summary_run (host : Host World Ref Test Error) (runner : Runner) (world : World)
    (queue : List Ref) :
    (run host runner world queue).runner.summary =
      (run host runner world queue).tally runner.summary := by
  have hends := ends_run host runner world queue
  generalize run host runner world queue = session at hends ⊢
  rw [Session.tally, Session.endsUnreported]
  cases hends with
  | @finished queue trials final htries =>
      rw [List.getLast?_concat, Summary.plus_append, ← summary_counting]
      rfl
  | unloaded htries hload =>
      rw [any_getLast?_flatMap_events, ← summary_counting]
      rfl
  | unsaved htries hload hexecute hrebase hsave =>
      rw [List.getLast?_append, Summary.plus_append, ← summary_counting]
      rfl

/-- The option of a runner is never changed. -/
theorem rebase_run (host : Host World Ref Test Error) (runner : Runner) (world : World)
    (queue : List Ref) :
    (run host runner world queue).runner.rebase = runner.rebase := by
  have hends := ends_run host runner world queue
  generalize run host runner world queue = session at hends ⊢
  cases hends with
  | finished | unloaded | unsaved => rfl

/-! ## One session after the other -/

/-- A runner behind some jobs.  What has become of the earlier ones does not matter to the later
ones, but the counts go on. -/
def afterJobs (runner : Runner) (jobs : List (Job World Ref Test Error)) : Runner :=
  jobs.foldl (fun runner job => (job.session runner).runner) runner

/-- The sessions of a runner on some jobs. -/
def work : Runner → List (Job World Ref Test Error) → List (Session World Ref Test Error)
  | _, [] => []
  | runner, job :: jobs => job.session runner :: work (job.session runner).runner jobs

theorem afterJobs_cons (runner : Runner) (job : Job World Ref Test Error)
    (jobs : List (Job World Ref Test Error)) :
    runner.afterJobs (job :: jobs) = (job.session runner).runner.afterJobs jobs := rfl

theorem rebase_afterJobs (jobs : List (Job World Ref Test Error)) (runner : Runner) :
    (runner.afterJobs jobs).rebase = runner.rebase := by
  induction jobs generalizing runner with
  | nil => rfl
  | cons job jobs ih =>
      rw [afterJobs_cons, ih]
      exact rebase_run job.host runner job.world job.queue

/-- **What some sessions add to the counts of their runner**: their reports, and one baseline
for each session that ends unreported. -/
theorem summary_afterJobs (jobs : List (Job World Ref Test Error)) (runner : Runner) :
    (runner.afterJobs jobs).summary =
      (runner.summary.plus ((runner.work jobs).flatMap Session.events)).withUnsaved
        ((runner.work jobs).countP Session.endsUnreported) := by
  induction jobs generalizing runner with
  | nil => rfl
  | cons job jobs ih =>
      have hstep : (job.session runner).runner.summary =
          (job.session runner).tally runner.summary :=
        summary_run job.host runner job.world job.queue
      have hcount : (job.session runner).endsUnreported.toNat =
          if (job.session runner).endsUnreported then 1 else 0 := by
        cases (job.session runner).endsUnreported <;> rfl
      rw [afterJobs_cons, ih, hstep, work, List.flatMap_cons, Summary.plus_append,
        List.countP_cons, Session.tally, Summary.plus_withUnsaved,
        Summary.withUnsaved_withUnsaved, Nat.add_comm, hcount]

/-- The saved baselines of some sessions are those that their events report. -/
theorem length_flatMap_rebased (sessions : List (Session World Ref Test Error)) :
    (sessions.flatMap Session.rebased).length =
      (sessions.flatMap Session.events).countP Event.isRebased := by
  rw [List.length_flatMap, List.countP_flatMap]
  exact congrArg List.sum (List.map_congr_left fun session _ => session.length_rebased)

/-- **The counts of a runner follow its reports, and a baseline that is not saved is counted.**
Whatever sessions have gone before, each session adds to the counts of passed and of failed
tests what it reports.  To the count of baselines it adds those that it has saved, which make
the world that it leaves, and one more if and only if it has stopped because a baseline could
not be saved.  A summary that is returned later still contains every such baseline. -/
theorem counts_follow_reports (runner : Runner) (earlier : List (Job World Ref Test Error))
    (job : Job World Ref Test Error) :
    let before := (runner.afterJobs earlier).summary
    let session := job.session (runner.afterJobs earlier)
    session.runner.summary.passed = before.passed + session.events.countP Event.isPassed ∧
      session.runner.summary.failed = before.failed + session.events.countP Event.isFailed ∧
      session.runner.summary.rebased =
        before.rebased + session.rebased.length + session.endsUnreported.toNat ∧
      session.rebased.foldlM job.host.save job.world = .ok session.world ∧
      (session.endsUnreported = true ↔ session.Unsaved job.host runner.rebase job.queue) ∧
      ∀ summary, session.result = .ok summary →
        session.runner.summary = summary ∧
          summary.rebased =
            runner.summary.rebased + ((runner.work earlier).flatMap Session.rebased).length +
              session.rebased.length +
              (runner.work earlier).countP Session.endsUnreported := by
  intro before session
  have hsummary : session.runner.summary = session.tally before :=
    summary_run job.host (runner.afterJobs earlier) job.world job.queue
  have hrebased : session.runner.summary.rebased =
      before.rebased + session.rebased.length + session.endsUnreported.toNat := by
    rw [hsummary, Session.length_rebased]
    rfl
  refine ⟨?_, ?_, hrebased, ?_, ?_, ?_⟩
  · rw [hsummary]
    rfl
  · rw [hsummary]
    rfl
  · exact foldlM_save_rebased job.host (runner.afterJobs earlier) job.world job.queue
  · rw [← rebase_afterJobs earlier runner]
    exact endsUnreported_iff
  · intro summary hresult
    have hbefore : before.rebased =
        runner.summary.rebased + ((runner.work earlier).flatMap Session.rebased).length +
          (runner.work earlier).countP Session.endsUnreported := by
      rw [length_flatMap_rebased]
      exact congrArg Summary.rebased (summary_afterJobs earlier runner)
    have hreported : session.endsUnreported = false := endsUnreported_of_result_eq_ok hresult
    have hreturned : session.runner.summary = summary := (counts_of_result_eq_ok hresult).1
    refine ⟨hreturned, ?_⟩
    rw [← hreturned, hrebased, hbefore, hreported]
    show _ + 0 = _
    omega

/-- A script of one test with an incorrect result, whose actual output cannot be saved. -/
def unsaveableTest : Script where
  queue := [.test (.fixed "a" .incorrectResult)]
  unsaveable := ["a"]

/-- A runner that rebases runs an empty queue behind the test whose output cannot be saved. -/
theorem counts_follow_reports_when_unsaved :
    (({ queue := [] } : Script).job.session
      ((⟨true, {}⟩ : Runner).afterJobs [unsaveableTest.job])).result = .ok ⟨0, 0, 1⟩ ∧
      (⟨0, 0, 1⟩ : Summary).rebased =
        0 + (((⟨true, {}⟩ : Runner).work [unsaveableTest.job]).flatMap Session.rebased).length +
          0 +
          ((⟨true, {}⟩ : Runner).work [unsaveableTest.job]).countP Session.endsUnreported := by
  obtain ⟨-, -, -, -, -, hsummary⟩ :=
    counts_follow_reports ⟨true, {}⟩ [unsaveableTest.job] ({ queue := [] } : Script).job
  exact ⟨rfl, (hsummary ⟨0, 0, 1⟩ rfl).2⟩

/-- **A baseline is counted and not saved**, and counted in the next summary as well. -/
theorem rebased_count_exceeds_saves :
    (unsaveableTest.job.session ⟨true, {}⟩).result = .error "cannot write a" ∧
      (unsaveableTest.job.session ⟨true, {}⟩).rebased.length = 0 ∧
      (unsaveableTest.job.session ⟨true, {}⟩).runner.summary.rebased = 1 ∧
      (({ queue := [] } : Script).job.session
        (unsaveableTest.job.session ⟨true, {}⟩).runner).result = .ok ⟨0, 0, 1⟩ :=
  ⟨rfl, rfl, rfl, rfl⟩

end Runner

end GoldenRom

import GoldenRom.Check.Runner

/-!
# Sessions of a runner

A runner takes one item of a queue after the other, and each turn goes in one of five ways.  All
that is said about a session is derived from these five.  The world changes only in turns that
save a new baseline, so a session of a runner that does not rebase leaves it as it is, and all
saves of a session together make the world that it leaves behind.

## Main definitions

* `Session.rebased`: the tests whose actual output has been saved, in order.
* `Host.SavesKeep`: the properties of the world that last while tests are saved.
* `Runner.Turn`: the rules for the first turn of a session.
* `Runner.Repeats`: what a second session has in common with a first one.

## Main results

* `Runner.foldlM_save_rebased`: the world afterwards is the one that the saves make.
* `Runner.exists_of_rebased`: every saved test had an incorrect result in the world that the
  earlier saves had made.
* `Runner.run_eq_ok_iff_of_not_rebase`: when a session without rebasing ends without a failed
  test.
* `Runner.run_again`: what a second session counts if the first one has mended all incorrect
  results.
-/

namespace GoldenRom

variable {World Ref Test Error : Type}

/-- The test that has been rebased with an event. -/
def Event.rebased? : Event Test → Option Test
  | rebased test => some test
  | started _ | executed _ | passed _ | failed _ _ | saving _ | finished _ => none

namespace Session

/-- The tests whose actual output has been saved, in order. -/
def rebased (session : Session World Ref Test Error) : List Test :=
  session.events.filterMap Event.rebased?

variable (session : Session World Ref Test Error) (events : List (Event Test))

@[simp] theorem world_after : (session.after events).world = session.world := rfl

@[simp] theorem result_after : (session.after events).result = session.result := rfl

@[simp] theorem rebased_after :
    (session.after events).rebased = events.filterMap Event.rebased? ++ session.rebased :=
  List.filterMap_append

end Session

/-- A property of the world is kept when a test of a queue is saved because its result is
incorrect. -/
def Host.SavesKeep (host : Host World Ref Test Error) (queue : List Ref) (P : World → Prop) :
    Prop :=
  ∀ ⦃world ref test executed saved⦄, ref ∈ queue → P world → host.load world ref = .ok test →
    host.execute test = (executed, .incorrectResult) →
    host.save world executed = .ok saved → P saved

theorem Host.SavesKeep.of_cons {host : Host World Ref Test Error} {ref : Ref}
    {queue : List Ref} {P : World → Prop} (h : host.SavesKeep (ref :: queue) P) :
    host.SavesKeep queue P :=
  fun _ _ _ _ _ hmem => h (List.mem_cons_of_mem ref hmem)

namespace Runner

/-! ## One turn -/

/-- What the first item of a queue makes of a session. -/
inductive Turn (host : Host World Ref Test Error) (runner : Runner) (world : World)
    (ref : Ref) (queue : List Ref) :
    Session World Ref Test Error → Prop
  /-- The test cannot be loaded, and the session stops. -/
  | unloaded {error : Error} (hload : host.load world ref = .error error) :
      Turn host runner world ref queue
        { runner, world, events := [], left := queue, result := .error error }
  | passed {test executed : Test} (hload : host.load world ref = .ok test)
      (hexecute : host.execute test = (executed, .passed)) :
      Turn host runner world ref queue
        ((run host runner.countPassed world queue).after
          [.started test, .executed executed, .passed executed])
  | failed {test executed : Test} {verdict : Verdict} (hload : host.load world ref = .ok test)
      (hexecute : host.execute test = (executed, verdict)) (hverdict : verdict ≠ .passed)
      (hkeep : ¬(verdict = .incorrectResult ∧ runner.rebase = true)) :
      Turn host runner world ref queue
        ((run host runner.countFailed world queue).after
          [.started test, .executed executed, .failed executed verdict])
  | rebased {test executed : Test} {saved : World} (hload : host.load world ref = .ok test)
      (hexecute : host.execute test = (executed, .incorrectResult))
      (hrebase : runner.rebase = true) (hsave : host.save world executed = .ok saved) :
      Turn host runner world ref queue
        ((run host runner.countRebased saved queue).after
          [.started test, .executed executed, .saving executed, .rebased executed])
  /-- The baseline cannot be saved, and the session stops. -/
  | unsaved {test executed : Test} {error : Error} (hload : host.load world ref = .ok test)
      (hexecute : host.execute test = (executed, .incorrectResult))
      (hrebase : runner.rebase = true) (hsave : host.save world executed = .error error) :
      Turn host runner world ref queue
        { runner := runner.countRebased, world, left := queue
          events := [.started test, .executed executed, .saving executed]
          result := .error error }

variable {host : Host World Ref Test Error} {runner : Runner} {world : World} {ref : Ref}
  {queue : List Ref}

/-- **The first turn of a session** follows one of the rules. -/
theorem turn_run (host : Host World Ref Test Error) (runner : Runner) (world : World)
    (ref : Ref) (queue : List Ref) :
    Turn host runner world ref queue (run host runner world (ref :: queue)) := by
  rw [run]
  cases hload : host.load world ref with
  | error error => exact .unloaded hload
  | ok test =>
      dsimp only
      cases hexecute : host.execute test with
      | mk executed verdict =>
          cases verdict with
          | passed => exact .passed hload hexecute
          | incorrectResult =>
              by_cases hrebase : runner.rebase = true
              · dsimp only
                rw [if_pos ⟨rfl, hrebase⟩]
                cases hsave : host.save world executed with
                | ok saved => exact .rebased hload hexecute hrebase hsave
                | error error => exact .unsaved hload hexecute hrebase hsave
              · dsimp only
                rw [if_neg fun h => hrebase h.2]
                exact .failed hload hexecute nofun fun h => hrebase h.2
          | timedOut => exact .failed hload hexecute nofun (by simp)
          | threwError => exact .failed hload hexecute nofun (by simp)

/-! ## The world -/

/-- **The saves of a session make its world.** -/
theorem foldlM_save_rebased (host : Host World Ref Test Error) (runner : Runner)
    (world : World) (queue : List Ref) :
    (run host runner world queue).rebased.foldlM host.save world =
      .ok (run host runner world queue).world := by
  induction queue generalizing runner world with
  | nil => rfl
  | cons ref queue ih =>
      have hturn := turn_run host runner world ref queue
      generalize run host runner world (ref :: queue) = session at hturn
      cases hturn with
      | unloaded hload => rfl
      | passed hload hexecute => exact ih runner.countPassed world
      | failed hload hexecute hverdict hkeep => exact ih runner.countFailed world
      | @rebased test executed saved hload hexecute hrebase hsave =>
          show (executed :: (run host runner.countRebased saved queue).rebased).foldlM
            host.save world = _
          rw [List.foldlM_cons, hsave]
          exact ih runner.countRebased saved
      | unsaved hload hexecute hrebase hsave => rfl

/-- A session that ends without an error has counted its saves. -/
theorem rebased_eq_add_length {summary : Summary}
    (hresult : (run host runner world queue).result = .ok summary) :
    summary.rebased = runner.summary.rebased +
      (run host runner world queue).rebased.length := by
  induction queue generalizing runner world with
  | nil =>
      obtain rfl := Except.ok.inj hresult
      rfl
  | cons ref queue ih =>
      have hturn := turn_run host runner world ref queue
      generalize run host runner world (ref :: queue) = session at hturn hresult
      cases hturn with
      | unloaded hload => cases hresult
      | passed hload hexecute => exact ih hresult
      | failed hload hexecute hverdict hkeep => exact ih hresult
      | @rebased test executed saved hload hexecute hrebase hsave =>
          have hrest := ih hresult
          show _ = _ + (executed :: (run host runner.countRebased saved queue).rebased).length
          rw [hrest, List.length_cons, Nat.add_comm _ 1, ← Nat.add_assoc]
          rfl
      | unsaved hload hexecute hrebase hsave => cases hresult

/-- What holds before and is kept by every save holds afterwards. -/
theorem run_world_induction {P : World → Prop}
    (hsave : host.SavesKeep queue P)
    (runner : Runner) (hworld : P world) : P (run host runner world queue).world := by
  induction queue generalizing runner world with
  | nil => exact hworld
  | cons ref queue ih =>
      have hrest : ∀ runner world, P world → P (run host runner world queue).world :=
        fun runner world hworld => ih hsave.of_cons runner hworld
      have hturn := turn_run host runner world ref queue
      generalize run host runner world (ref :: queue) = session at hturn
      cases hturn with
      | unloaded hload => exact hworld
      | passed hload hexecute => exact hrest runner.countPassed world hworld
      | failed hload hexecute hverdict hkeep => exact hrest runner.countFailed world hworld
      | @rebased test executed saved hload hexecute hrebase hsaved =>
          exact hrest _ saved (hsave List.mem_cons_self hworld hload hexecute hsaved)
      | unsaved hload hexecute hrebase hsaved => exact hworld

/-- **Every saved test had an incorrect result** when it ran, in the world that the saves before
it had made. -/
theorem exists_of_rebased {P : World → Prop} {before after : List Test} {executed : Test}
    (hsave : host.SavesKeep queue P) (hworld : P world)
    (hrebased : (run host runner world queue).rebased = before ++ executed :: after) :
    ∃ ref ∈ queue, ∃ reached test, before.foldlM host.save world = .ok reached ∧ P reached ∧
      host.load reached ref = .ok test ∧ host.execute test = (executed, .incorrectResult) := by
  induction queue generalizing runner world before with
  | nil =>
      have hnil : [] = before ++ executed :: after := hrebased
      exact absurd hnil (by simp)
  | cons ref queue ih =>
      have hrest : ∀ {runner world before}, P world →
          (run host runner world queue).rebased = before ++ executed :: after →
          ∃ other ∈ ref :: queue, ∃ reached test, before.foldlM host.save world = .ok reached ∧
            P reached ∧ host.load reached other = .ok test ∧
            host.execute test = (executed, .incorrectResult) := by
        intro runner world before hworld hrebased
        obtain ⟨other, hmem, h⟩ := ih hsave.of_cons hworld hrebased
        exact ⟨other, List.mem_cons_of_mem ref hmem, h⟩
      have hturn := turn_run host runner world ref queue
      generalize run host runner world (ref :: queue) = session at hturn hrebased
      cases hturn with
      | unloaded hload =>
          have hnil : [] = before ++ executed :: after := hrebased
          exact absurd hnil (by simp)
      | passed hload hexecute => exact hrest hworld hrebased
      | failed hload hexecute hverdict hkeep => exact hrest hworld hrebased
      | @rebased test first saved hload hexecute hrebase hsaved =>
          replace hrebased : first :: (run host runner.countRebased saved queue).rebased =
              before ++ executed :: after :=
            hrebased
          cases before with
          | nil =>
              obtain rfl : first = executed := List.head_eq_of_cons_eq hrebased
              exact ⟨ref, List.mem_cons_self, world, test, rfl, hworld, hload, hexecute⟩
          | cons second before =>
              obtain rfl : first = second := List.head_eq_of_cons_eq hrebased
              have hafter := hsave List.mem_cons_self hworld hload hexecute hsaved
              obtain ⟨other, hmem, reached, other', hreached, h⟩ :=
                hrest hafter (List.tail_eq_of_cons_eq hrebased)
              refine ⟨other, hmem, reached, other', ?_, h⟩
              rw [List.foldlM_cons, hsaved]
              exact hreached
      | unsaved hload hexecute hrebase hsaved =>
          have hnil : [] = before ++ executed :: after := hrebased
          exact absurd hnil (by simp)

/-! ## Sessions without rebasing -/

/-- Without rebasing the world stays as it is. -/
theorem run_world_of_not_rebase (hrebase : runner.rebase = false) :
    (run host runner world queue).world = world := by
  induction queue generalizing runner with
  | nil => rfl
  | cons ref queue ih =>
      have hturn := turn_run host runner world ref queue
      generalize run host runner world (ref :: queue) = session at hturn
      cases hturn with
      | unloaded hload => rfl
      | passed hload hexecute => exact ih (show runner.countPassed.rebase = false from hrebase)
      | failed hload hexecute hverdict hkeep =>
          exact ih (show runner.countFailed.rebase = false from hrebase)
      | rebased hload hexecute hrebases hsave =>
          exact absurd hrebases (Bool.eq_false_iff.1 hrebase)
      | unsaved hload hexecute hrebases hsave => rfl

/-- **Without rebasing** a session ends without a failed test if and only if there was none
before and every item of the queue can be loaded and passes. -/
theorem run_eq_ok_iff_of_not_rebase (hrebase : runner.rebase = false) :
    (∃ summary, (run host runner world queue).result = .ok summary ∧ summary.failed = 0) ↔
      runner.summary.failed = 0 ∧
        ∀ ref ∈ queue, ∃ test executed, host.load world ref = .ok test ∧
          host.execute test = (executed, .passed) := by
  induction queue generalizing runner with
  | nil => simp
  | cons ref queue ih =>
      have hturn := turn_run host runner world ref queue
      generalize run host runner world (ref :: queue) = session at hturn
      rw [List.forall_mem_cons]
      cases hturn with
      | @unloaded error hload =>
          constructor
          · rintro ⟨summary, hresult, -⟩
            cases hresult
          · rintro ⟨-, ⟨test, -, hload', -⟩, -⟩
            rw [hload] at hload'
            cases hload'
      | @passed test executed hload hexecute =>
          refine (ih (show runner.countPassed.rebase = false from hrebase)).trans ?_
          exact and_congr_right fun _ => (and_iff_right ⟨test, executed, hload, hexecute⟩).symm
      | @failed test executed verdict hload hexecute hverdict hkeep =>
          refine (ih (show runner.countFailed.rebase = false from hrebase)).trans ?_
          constructor
          · rintro ⟨hfailed, -⟩
            cases hfailed
          · rintro ⟨-, ⟨test', executed', hload', hexecute'⟩, -⟩
            obtain rfl : test = test' := Except.ok.inj (hload.symm.trans hload')
            exact absurd (congrArg Prod.snd (hexecute.symm.trans hexecute')) hverdict
      | rebased hload hexecute hrebases hsave =>
          exact absurd hrebases (Bool.eq_false_iff.1 hrebase)
      | unsaved hload hexecute hrebases hsave =>
          exact absurd hrebases (Bool.eq_false_iff.1 hrebase)

/-! ## Sessions after one that has rebased -/

/-- **What a session settles.**  Let an item be settled by a turn in which its result is not
incorrect, and by one that saves it, and let it stay settled when another item is saved.  A
session of a runner that rebases and ends without an error then settles every item of its
queue. -/
theorem run_settles (Settled : World → Ref → Prop) {P : World → Prop} {summary : Summary}
    (hrebase : runner.rebase = true) (hworld : P world)
    (hsave : ∀ world ref test executed saved, ref ∈ queue → P world →
      host.load world ref = .ok test → host.execute test = (executed, .incorrectResult) →
      host.save world executed = .ok saved → P saved ∧ Settled saved ref ∧
        ∀ other ∈ queue, Settled world other → Settled saved other)
    (hkeep : ∀ world ref test executed verdict, ref ∈ queue → P world →
      host.load world ref = .ok test → host.execute test = (executed, verdict) →
      verdict ≠ .incorrectResult → Settled world ref)
    (hresult : (run host runner world queue).result = .ok summary) :
    ∀ ref ∈ queue, Settled (run host runner world queue).world ref := by
  induction queue generalizing runner world with
  | nil => exact fun ref hmem => absurd hmem List.not_mem_nil
  | cons ref queue ih =>
      -- Once the first item is settled, it stays so while the others have their turns.
      have hrest : ∀ {next : Runner} {reached : World}, next.rebase = true → P reached →
          Settled reached ref → (run host next reached queue).result = .ok summary →
          ∀ item ∈ ref :: queue, Settled (run host next reached queue).world item := by
        intro next reached hnext hreached hsettled hresult
        refine List.forall_mem_cons.2 ⟨?_, ih hnext hreached ?_ ?_ hresult⟩
        · have hboth : P (run host next reached queue).world ∧
              Settled (run host next reached queue).world ref := by
            refine run_world_induction (P := fun world => P world ∧ Settled world ref) ?_
              next ⟨hreached, hsettled⟩
            rintro world other test executed saved hmem ⟨hworld, hhere⟩ hload hexecute hsaved
            obtain ⟨hafter, -, hstays⟩ :=
              hsave world other test executed saved (List.mem_cons_of_mem ref hmem) hworld hload
                hexecute hsaved
            exact ⟨hafter, hstays ref List.mem_cons_self hhere⟩
          exact hboth.2
        · intro world other test executed saved hmem hworld hload hexecute hsaved
          obtain ⟨hafter, hhere, hstays⟩ :=
            hsave world other test executed saved (List.mem_cons_of_mem ref hmem) hworld hload
              hexecute hsaved
          exact ⟨hafter, hhere, fun item hitem => hstays item (List.mem_cons_of_mem ref hitem)⟩
        · exact fun world other test executed verdict hmem =>
            hkeep world other test executed verdict (List.mem_cons_of_mem ref hmem)
      have hturn := turn_run host runner world ref queue
      generalize run host runner world (ref :: queue) = session at hturn hresult
      cases hturn with
      | unloaded hload => cases hresult
      | @passed test executed hload hexecute =>
          have hhere :=
            hkeep world ref test executed .passed List.mem_cons_self hworld hload hexecute nofun
          exact hrest (show runner.countPassed.rebase = true from hrebase) hworld hhere hresult
      | @failed test executed verdict hload hexecute hverdict hunsaved =>
          have hother : verdict ≠ .incorrectResult := fun h => hunsaved ⟨h, hrebase⟩
          have hhere :=
            hkeep world ref test executed verdict List.mem_cons_self hworld hload hexecute
              hother
          exact hrest (show runner.countFailed.rebase = true from hrebase) hworld hhere hresult
      | @rebased test executed saved hload hexecute hrebases hsaved =>
          obtain ⟨hafter, hhere, -⟩ :=
            hsave world ref test executed saved List.mem_cons_self hworld hload hexecute hsaved
          exact hrest (show runner.countRebased.rebase = true from hrebase) hafter hhere hresult
      | unsaved hload hexecute hrebases hsaved => cases hresult

/-- A turn of a test whose result is not incorrect counts and saves nothing. -/
theorem exists_run_cons_eq (runner : Runner) (queue : List Ref) {test executed : Test}
    {verdict : Verdict} (hload : host.load world ref = .ok test)
    (hexecute : host.execute test = (executed, verdict))
    (hverdict : verdict ≠ .incorrectResult) :
    ∃ events : List (Event Test), events.filterMap Event.rebased? = [] ∧
      run host runner world (ref :: queue) =
        (run host (if verdict = .passed then runner.countPassed else runner.countFailed) world
          queue).after events := by
  rw [run, hload]
  dsimp only
  rw [hexecute]
  cases verdict with
  | passed => exact ⟨_, rfl, rfl⟩
  | incorrectResult => exact absurd rfl hverdict
  | timedOut => exact ⟨_, rfl, rfl⟩
  | threwError => exact ⟨_, rfl, rfl⟩

/-- A turn that saves a test. -/
theorem run_cons_eq_of_rebased {runner : Runner} (hrebase : runner.rebase = true)
    (queue : List Ref) {test executed : Test} {saved : World}
    (hload : host.load world ref = .ok test)
    (hexecute : host.execute test = (executed, .incorrectResult))
    (hsave : host.save world executed = .ok saved) :
    run host runner world (ref :: queue) =
      (run host runner.countRebased saved queue).after
        [.started test, .executed executed, .saving executed, .rebased executed] := by
  rw [run, hload]
  dsimp only
  rw [hexecute]
  dsimp only
  rw [if_pos ⟨rfl, hrebase⟩, hsave]

/-- A turn that stops the session because a test cannot be saved. -/
theorem run_cons_eq_of_unsaved {runner : Runner} (hrebase : runner.rebase = true)
    (queue : List Ref) {test executed : Test} {error : Error}
    (hload : host.load world ref = .ok test)
    (hexecute : host.execute test = (executed, .incorrectResult))
    (hsave : host.save world executed = .error error) :
    run host runner world (ref :: queue) =
      { runner := runner.countRebased, world, left := queue
        events := [.started test, .executed executed, .saving executed]
        result := .error error } := by
  rw [run, hload]
  dsimp only
  rw [hexecute]
  dsimp only
  rw [if_pos ⟨rfl, hrebase⟩, hsave]

/-- A session of the second runner rebases nothing and leaves the world as it is.  From there on
it counts what the first runner has counted to come to a summary, and as passed also what was
rebased. -/
structure Repeats (host : Host World Ref Test Error) (settled : World) (queue : List Ref)
    (first second : Runner) (summary : Summary) : Prop where
  world_eq : (run host second settled queue).world = settled
  rebased_eq : (run host second settled queue).rebased = []
  counts : ∃ last, (run host second settled queue).result = .ok last ∧
    last.passed + (first.summary.passed + first.summary.rebased) =
      second.summary.passed + (summary.passed + summary.rebased) ∧
    last.failed + first.summary.failed = second.summary.failed + summary.failed ∧
    last.rebased = second.summary.rebased

section Repeats

variable {settled : World} {first second next : Runner} {summary : Summary}
  {test executed : Test} {verdict : Verdict}

theorem repeats_nil (host : Host World Ref Test Error) (settled : World)
    (first second : Runner) :
    Repeats host settled [] first second first.summary :=
  ⟨rfl, rfl, second.summary, rfl, rfl, rfl, rfl⟩

/-- A turn in which the test passes, as it did before, or after it was rebased. -/
theorem Repeats.cons_passed (h : Repeats host settled queue next second.countPassed summary)
    (hload : host.load settled ref = .ok test)
    (hexecute : host.execute test = (executed, .passed))
    (hpassed : next.summary.passed + next.summary.rebased =
      first.summary.passed + first.summary.rebased + 1)
    (hfailed : next.summary.failed = first.summary.failed) :
    Repeats host settled (ref :: queue) first second summary := by
  obtain ⟨events, hevents, hrun⟩ := exists_run_cons_eq second queue hload hexecute nofun
  rw [if_pos rfl] at hrun
  obtain ⟨last, hresult, hpasses, hfails, hrebased⟩ := h.counts
  have hmore : second.countPassed.summary.passed = second.summary.passed + 1 := rfl
  refine ⟨hrun ▸ h.world_eq, ?_, last, hrun ▸ hresult, by omega, hfailed ▸ hfails, hrebased⟩
  rw [hrun, Session.rebased_after, hevents, h.rebased_eq, List.nil_append]

/-- A turn in which the test fails, as it did before. -/
theorem Repeats.cons_failed
    (h : Repeats host settled queue first.countFailed second.countFailed summary)
    (hload : host.load settled ref = .ok test)
    (hexecute : host.execute test = (executed, verdict)) (hverdict : verdict ≠ .passed)
    (hother : verdict ≠ .incorrectResult) :
    Repeats host settled (ref :: queue) first second summary := by
  obtain ⟨events, hevents, hrun⟩ := exists_run_cons_eq second queue hload hexecute hother
  rw [if_neg hverdict] at hrun
  obtain ⟨last, hresult, hpasses, hfails, hrebased⟩ := h.counts
  have hmore : second.countFailed.summary.failed = second.summary.failed + 1 := rfl
  have hmore' : first.countFailed.summary.failed = first.summary.failed + 1 := rfl
  refine ⟨hrun ▸ h.world_eq, ?_, last, hrun ▸ hresult, hpasses, by omega, hrebased⟩
  rw [hrun, Session.rebased_after, hevents, h.rebased_eq, List.nil_append]

end Repeats

/-- **A second session.**  Let a first session of a runner that rebases end without an error,
and let a world be such that every test that had an incorrect result in the first session passes
in it, and every other test has the verdict that it had.  A session in this world then rebases
nothing, leaves the world as it is, and counts as passed what the first one has counted as
passed or rebased. -/
theorem run_again (settled : World) {P : World → Prop} {summary : Summary}
    (hrebase : runner.rebase = true) (hworld : P world) (hsave : host.SavesKeep queue P)
    (hagain : ∀ world ref test executed verdict, ref ∈ queue → P world →
      host.load world ref = .ok test → host.execute test = (executed, verdict) →
      ∃ test' executed', host.load settled ref = .ok test' ∧
        host.execute test' =
          (executed', if verdict = .incorrectResult then .passed else verdict))
    (hfirst : (run host runner world queue).result = .ok summary) (second : Runner) :
    Repeats host settled queue runner second summary := by
  induction queue generalizing runner second world with
  | nil =>
      obtain rfl := Except.ok.inj hfirst
      exact repeats_nil host settled runner second
  | cons ref queue ih =>
      have hrest : ∀ (next second : Runner) {reached : World}, next.rebase = true → P reached →
          (run host next reached queue).result = .ok summary →
          Repeats host settled queue next second summary :=
        fun next second reached hnext hreached hresult => ih hnext hreached hsave.of_cons
          (fun world ref test executed verdict hmem =>
            hagain world ref test executed verdict (List.mem_cons_of_mem _ hmem))
          hresult second
      have hturn := turn_run host runner world ref queue
      generalize run host runner world (ref :: queue) = session at hturn hfirst
      cases hturn with
      | unloaded hload => cases hfirst
      | @passed test executed hload hexecute =>
          obtain ⟨test', executed', hload', hexecute'⟩ :=
            hagain world ref test executed .passed List.mem_cons_self hworld hload hexecute
          refine (hrest runner.countPassed second.countPassed hrebase hworld hfirst).cons_passed
            hload' hexecute' ?_ rfl
          exact Nat.add_right_comm runner.summary.passed 1 runner.summary.rebased
      | @failed test executed verdict hload hexecute hverdict hkeep =>
          have hother : verdict ≠ .incorrectResult := fun h => hkeep ⟨h, hrebase⟩
          obtain ⟨test', executed', hload', hexecute'⟩ :=
            hagain world ref test executed verdict List.mem_cons_self hworld hload hexecute
          rw [if_neg hother] at hexecute'
          exact (hrest runner.countFailed second.countFailed hrebase hworld hfirst).cons_failed
            hload' hexecute' hverdict
            hother
      | @rebased test executed saved hload hexecute hrebases hsaved =>
          obtain ⟨test', executed', hload', hexecute'⟩ :=
            hagain world ref test executed .incorrectResult List.mem_cons_self hworld
              hload hexecute
          have hreached := hsave List.mem_cons_self hworld hload hexecute hsaved
          exact (hrest runner.countRebased second.countPassed hrebase hreached
            hfirst).cons_passed hload' hexecute' rfl rfl
      | unsaved hload hexecute hrebases hsaved => cases hfirst

end Runner

end GoldenRom

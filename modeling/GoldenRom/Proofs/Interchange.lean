import Mathlib.Data.List.Basic
import GoldenRom.Proofs.Reports

/-!
# Queues in another order

A session takes the items of its queue one after the other, and what one of them finds may
depend on what has been saved before.  So in another order a test may find another verdict.  If
two neighbours can always change places, though, so that the same two verdicts are found and the
worlds cannot be told apart in the end, then the whole queue may stand in any order.

## Main definitions

* `Runner.Takes`: one item of a queue is taken, with its verdict and the world that it leaves
  behind.
* `Runner.TakesAll`: the items of a queue are taken one after the other.
* `Runner.Interchanges`: what it takes for neighbours to change places.

## Main results

* `Runner.TakesAll.perm`: then all items can be taken in any order.
* `Runner.result_of_perm`: the result of a session on a queue in another order.
-/

namespace GoldenRom

namespace Runner

variable {World Ref Test Error : Type} {host : Host World Ref Test Error} {rebase : Bool}

/-- An item of a queue is taken: its test is loaded and run, and its baseline is saved if that
is asked for. -/
inductive Takes (host : Host World Ref Test Error) (rebase : Bool) (world : World) (ref : Ref) :
    Verdict → World → Prop
  /-- The baseline stays. -/
  | kept {loaded executed : Test} {verdict : Verdict}
      (hload : host.load world ref = .ok loaded)
      (hexecute : host.execute loaded = (executed, verdict))
      (hkeep : ¬(verdict = .incorrectResult ∧ rebase = true)) :
      Takes host rebase world ref verdict world
  /-- The actual output is saved. -/
  | saved {loaded executed : Test} {saved : World} (hload : host.load world ref = .ok loaded)
      (hexecute : host.execute loaded = (executed, .incorrectResult))
      (hrebase : rebase = true) (hsave : host.save world executed = .ok saved) :
      Takes host rebase world ref .incorrectResult saved

/-- The items of a queue are taken one after the other. -/
inductive TakesAll (host : Host World Ref Test Error) (rebase : Bool) :
    World → List Ref → List Verdict → World → Prop
  | nil (world : World) : TakesAll host rebase world [] [] world
  | cons {world middle final : World} {ref : Ref} {queue : List Ref} {verdict : Verdict}
      {verdicts : List Verdict} (hfirst : Takes host rebase world ref verdict middle)
      (hrest : TakesAll host rebase middle queue verdicts final) :
      TakesAll host rebase world (ref :: queue) (verdict :: verdicts) final

variable {world world' middle final other : World} {ref : Ref} {queue queue' : List Ref}
  {verdict : Verdict} {verdicts : List Verdict} {runner : Runner}

/-- There is at most one way to take an item. -/
theorem Takes.eq {verdict' : Verdict} (h : Takes host rebase world ref verdict final)
    (h' : Takes host rebase world ref verdict' other) : verdict = verdict' ∧ final = other := by
  cases h with
  | kept hload hexecute hkeep =>
      cases h' with
      | kept hload' hexecute' _ =>
          obtain rfl := Except.ok.inj (hload.symm.trans hload')
          exact ⟨(Prod.mk.inj (hexecute.symm.trans hexecute')).2, rfl⟩
      | saved hload' hexecute' hrebase _ =>
          obtain rfl := Except.ok.inj (hload.symm.trans hload')
          exact absurd ⟨(Prod.mk.inj (hexecute.symm.trans hexecute')).2, hrebase⟩ hkeep
  | saved hload hexecute hrebase hsave =>
      cases h' with
      | kept hload' hexecute' hkeep =>
          obtain rfl := Except.ok.inj (hload.symm.trans hload')
          exact absurd ⟨(Prod.mk.inj (hexecute'.symm.trans hexecute)).2, hrebase⟩ hkeep
      | saved hload' hexecute' _ hsave' =>
          obtain rfl := Except.ok.inj (hload.symm.trans hload')
          obtain ⟨rfl, -⟩ := Prod.mk.inj (hexecute.symm.trans hexecute')
          exact ⟨rfl, Except.ok.inj (hsave.symm.trans hsave')⟩

/-- Where nothing is saved, the world stays as it is. -/
theorem Takes.eq_of_keep (h : Takes host rebase world ref verdict final)
    (hkeep : ¬(verdict = .incorrectResult ∧ rebase = true)) : final = world := by
  cases h with
  | kept => rfl
  | saved _ _ hrebase _ => exact absurd ⟨rfl, hrebase⟩ hkeep

/-! ## Sessions without an error -/

theorem takesAll_of_tries {trials : List (Trial Test)}
    (htries : Tries host rebase world queue trials final) :
    TakesAll host rebase world queue (trials.map Trial.verdict) final := by
  induction htries with
  | nil world => exact .nil world
  | kept hload hexecute hkeep _ ih => exact .cons (.kept hload hexecute hkeep) ih
  | saved hload hexecute hrebase hsave _ ih =>
      exact .cons (.saved hload hexecute hrebase hsave) ih

theorem TakesAll.exists_tries (htakes : TakesAll host rebase world queue verdicts final) :
    ∃ trials, Tries host rebase world queue trials final ∧
      trials.map Trial.verdict = verdicts := by
  induction htakes with
  | nil world => exact ⟨[], .nil world, rfl⟩
  | cons hfirst _ ih =>
      obtain ⟨trials, htries, rfl⟩ := ih
      cases hfirst with
      | kept hload hexecute hkeep => exact ⟨_, .kept hload hexecute hkeep htries, rfl⟩
      | saved hload hexecute hrebase hsave =>
          exact ⟨_, .saved hload hexecute hrebase hsave htries, rfl⟩

/-- The counts of a runner after some verdicts. -/
def counted (runner : Runner) (verdicts : List Verdict) : Summary where
  passed := runner.summary.passed + verdicts.countP fun verdict => verdict = .passed
  failed := runner.summary.failed +
    verdicts.countP fun verdict => verdict ≠ .passed ∧
    ¬(verdict = .incorrectResult ∧ runner.rebase = true)
  rebased := runner.summary.rebased + verdicts.countP fun verdict =>
    verdict = .incorrectResult ∧ runner.rebase = true

theorem counted_eq_of_perm (runner : Runner) {verdicts verdicts' : List Verdict}
    (hperm : verdicts.Perm verdicts') :
    runner.counted verdicts = runner.counted verdicts' := by
  simp only [counted, hperm.countP_eq]

/-- A test is reported according to its verdict. -/
theorem report_of_verdict (rebase : Bool) (trial : Trial Test) :
    (trial.report rebase).isPassed = decide (trial.verdict = .passed) ∧
      (trial.report rebase).isFailed =
        decide (trial.verdict ≠ .passed ∧
          ¬(trial.verdict = .incorrectResult ∧ rebase = true)) ∧
      (trial.report rebase).isRebased =
        decide (trial.verdict = .incorrectResult ∧ rebase = true) := by
  rw [Trial.report]
  cases trial.verdict <;> cases rebase <;> exact ⟨rfl, rfl, rfl⟩

theorem summary_counting_eq_counted (runner : Runner) (trials : List (Trial Test)) :
    (runner.counting trials).summary = runner.counted (trials.map Trial.verdict) := by
  simp only [counting, Summary.plus, counted, List.countP_map, Function.comp_def,
    report_of_verdict]

/-- **A session ends without an error if and only if all items of its queue are taken.**  Then
its counts are those of the verdicts. -/
theorem result_eq_ok_iff {summary : Summary} :
    (run host runner world queue).result = .ok summary ∧
        (run host runner world queue).world = final ↔
      ∃ verdicts, TakesAll host runner.rebase world queue verdicts final ∧
        runner.counted verdicts = summary := by
  constructor
  · have hends := ends_run host runner world queue
    generalize run host runner world queue = session at hends
    rintro ⟨hresult, rfl⟩
    cases hends with
    | finished htries =>
        obtain rfl := Except.ok.inj hresult
        exact ⟨_, takesAll_of_tries htries, (summary_counting_eq_counted runner _).symm⟩
    | unloaded _ _ => cases hresult
    | unsaved _ _ _ _ _ => cases hresult
  · rintro ⟨verdicts, htakes, rfl⟩
    obtain ⟨trials, htries, rfl⟩ := htakes.exists_tries
    rw [run_of_tries htries, summary_counting_eq_counted]
    exact ⟨rfl, rfl⟩

/-! ## Neighbours that change places -/

/-- Worlds of which some cannot be told apart, and items of which any two neighbours can change
places. -/
structure Interchanges (host : Host World Ref Test Error) (rebase : Bool) (Item : Ref → Prop)
    (Alike : World → World → Prop) : Prop where
  refl : ∀ world, Alike world world
  trans : ∀ {world middle final}, Alike world middle → Alike middle final → Alike world final
  /-- In worlds that cannot be told apart an item finds the same verdict and leaves behind
  worlds that cannot be told apart. -/
  congr : ∀ {world world' final ref verdict}, Item ref → Alike world world' →
    Takes host rebase world ref verdict final →
    ∃ final', Takes host rebase world' ref verdict final' ∧ Alike final final'
  /-- The second of two items can be taken first. -/
  swap : ∀ {world middle final ref next verdict verdict'}, Item ref → Item next →
    Takes host rebase world ref verdict middle → Takes host rebase middle next verdict' final →
    ∃ first second middle' final', Takes host rebase world next first middle' ∧
      Takes host rebase middle' ref second final' ∧ [verdict, verdict'].Perm [first, second] ∧
      Alike final final'

variable {Item : Ref → Prop} {Alike : World → World → Prop}

theorem TakesAll.congr (h : Interchanges host rebase Item Alike)
    (hitems : ∀ ref ∈ queue, Item ref) (halike : Alike world world')
    (htakes : TakesAll host rebase world queue verdicts final) :
    ∃ final', TakesAll host rebase world' queue verdicts final' ∧ Alike final final' := by
  induction htakes generalizing world' with
  | nil world => exact ⟨world', .nil world', halike⟩
  | cons hfirst _ ih =>
      rw [List.forall_mem_cons] at hitems
      obtain ⟨middle', hfirst', halike'⟩ := h.congr hitems.1 halike hfirst
      obtain ⟨final', hrest', hfinal⟩ := ih hitems.2 halike'
      exact ⟨final', .cons hfirst' hrest', hfinal⟩

/-- **The items of a queue can be taken in any order.**  The verdicts are the same, and the
worlds in the end cannot be told apart. -/
theorem TakesAll.perm (h : Interchanges host rebase Item Alike) (hperm : queue.Perm queue')
    (hitems : ∀ ref ∈ queue, Item ref) (halike : Alike world world')
    (htakes : TakesAll host rebase world queue verdicts final) :
    ∃ verdicts' final', TakesAll host rebase world' queue' verdicts' final' ∧
      verdicts.Perm verdicts' ∧
      Alike final final' := by
  induction hperm generalizing world world' verdicts final with
  | nil =>
      cases htakes
      exact ⟨[], world', .nil world', .nil, halike⟩
  | cons ref _ ih =>
      cases htakes with
      | cons hfirst hrest =>
          rw [List.forall_mem_cons] at hitems
          obtain ⟨middle', hfirst', halike'⟩ := h.congr hitems.1 halike hfirst
          obtain ⟨verdicts', final', hrest', hverdicts, hfinal⟩ := ih hitems.2 halike' hrest
          exact ⟨_, final', .cons hfirst' hrest', hverdicts.cons _, hfinal⟩
  | swap next ref queue =>
      cases htakes with
      | cons hfirst hrest =>
          cases hrest with
          | cons hsecond hrest =>
              rw [List.forall_mem_cons, List.forall_mem_cons] at hitems
              -- Both are taken where they were, then both in the other world, and then the
              -- rest.
              obtain ⟨middle', hfirst, halike'⟩ := h.congr hitems.1 halike hfirst
              obtain ⟨last, hsecond, hlast⟩ := h.congr hitems.2.1 halike' hsecond
              obtain ⟨_, _, _, last', hnext, href, hverdicts, hlast'⟩ :=
                h.swap hitems.1 hitems.2.1 hfirst hsecond
              obtain ⟨final', hrest', hfinal⟩ := hrest.congr h hitems.2.2 (h.trans hlast hlast')
              exact ⟨_, final', .cons hnext (.cons href hrest'),
                hverdicts.append_right _, hfinal⟩
  | trans hfirst _ ih ih' =>
      obtain ⟨middleVerdicts, middle, htakes', hverdicts, hmiddle⟩ := ih hitems halike htakes
      obtain ⟨verdicts', final', htakes'', hverdicts', hfinal⟩ :=
        ih' (fun ref hmem => hitems ref (hfirst.mem_iff.2 hmem)) (h.refl world') htakes'
      exact ⟨verdicts', final', htakes'', hverdicts.trans hverdicts', h.trans hmiddle hfinal⟩

/-- **The result of a session does not depend on the order of its queue**, if neighbours can
change places. -/
theorem result_of_perm (h : Interchanges host runner.rebase Item Alike)
    (hperm : queue.Perm queue') (hitems : ∀ ref ∈ queue, Item ref)
    (halike : Alike world world') {summary : Summary}
    (hresult : (run host runner world queue).result = .ok summary) :
    (run host runner world' queue').result = .ok summary ∧
      Alike (run host runner world queue).world (run host runner world' queue').world := by
  obtain ⟨verdicts, htakes, rfl⟩ := result_eq_ok_iff.1 ⟨hresult, rfl⟩
  obtain ⟨verdicts', final', htakes', hverdicts, hfinal⟩ := htakes.perm h hperm hitems halike
  obtain ⟨hresult', rfl⟩ :=
    result_eq_ok_iff.2 ⟨verdicts', htakes', (runner.counted_eq_of_perm hverdicts).symm⟩
  exact ⟨hresult', hfinal⟩

end Runner

end GoldenRom

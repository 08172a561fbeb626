import GoldenRom.Proofs.Interchange
import GoldenRom.Proofs.Listings
import GoldenRom.Proofs.Rebasing

/-!
# Tests that change places

Two tests of a suite have to do with each other only if they lie in the same place, which they
do when one file is found under two spellings.  Then the first to run is saved and the second
passes, whichever comes first.  Any other two tests do not notice each other, since what is
saved for one of them is neither ROM nor baseline of the other.

## Main results

* `FileSystem.Alike.takes`: a test finds the same verdict however directories list their
  entries.
* `FileSystem.exists_takes_swap`: neighbours in a queue of tests can change places.
* `suiteHost_interchanges`: hence a queue of tests may stand in any order.
-/

namespace GoldenRom

open Runner

namespace FileSystem

variable {seed : UInt64} {rebase : Bool} {fs other after saved final : FileSystem}
  {path next : Path} {verdict verdict' : Verdict} {parent parent' : List String}
  {stem stem' text text' : String}

/-! ## Saving elsewhere -/

namespace Saves

/-- Whether a test can be saved does not depend on baselines. -/
theorem of_baselinesDiffer (h : fs.Saves seed path parent stem text after)
    (hdiffer : fs.BaselinesDiffer other) :
    ∃ after', other.Saves seed path parent stem text after' := by
  obtain ⟨rom, ending, hread, hfile, hends, htext⟩ := h.ends
  obtain ⟨hdot, hfault, hsize, hold, -⟩ := h.lies.of_write_baseline h.write
  have hlies := h.lies.of_baselinesDiffer hdiffer
  obtain ⟨after', hwrite⟩ := hlies.exists_write_baseline hdot hfault hsize
    (fun hdirectory => hold ((hdiffer.directory_iff _).1 hdirectory)) text.toUTF8
  refine ⟨after', h.isTest, hlies,
    ⟨rom, ending, (hdiffer.read_iff h.isTest).2 hread, ?_, hends, htext⟩, hwrite⟩
  rw [hdiffer.standing?_eq _ (ne_append_expected parent stem), hfile]

/-- What is saved in a place is what the ROM there puts out. -/
theorem text_eq (h : fs.Saves seed path parent stem text after)
    (h' : other.Saves seed next parent stem text' final) (hdiffer : fs.BaselinesDiffer other) :
    text = text' := by
  obtain ⟨rom, ending, -, hfile, hends, htext⟩ := h.ends
  obtain ⟨rom', ending', -, hfile', hends', htext'⟩ := h'.ends
  rw [hdiffer.standing?_eq _ (ne_append_expected parent stem), hfile] at hfile'
  obtain rfl : rom = rom' := Standing.file.inj (Option.some.inj hfile')
  obtain rfl := hends.eq hends'
  exact Option.some.inj (htext.symm.trans htext')

/-- There is at most one way to save a test. -/
theorem eq (h : fs.Saves seed path parent stem text after)
    (h' : fs.Saves seed path parent' stem' text' final) : after = final := by
  obtain ⟨rom, ending, hread, -, hends, htext⟩ := h.ends
  obtain ⟨rom', ending', hread', -, hends', htext'⟩ := h'.ends
  obtain rfl : rom = rom' := Except.ok.inj (hread.symm.trans hread')
  obtain rfl := hends.eq hends'
  obtain rfl : text = text' := Option.some.inj (htext.symm.trans htext')
  exact Except.ok.inj (h.write.symm.trans h'.write)

end Saves

/-- A test that is settled where it was not before can be saved where it was not, and has been
settled by what stands in the place of its baseline. -/
theorem exists_saves_of_settled (htest : path.isTest = true)
    (hsettled : other.Settled seed path) (hdiffer : fs.BaselinesDiffer other)
    (hunsettled : ¬fs.Settled seed path) :
    ∃ parent stem text after, fs.Saves seed path parent stem text after ∧
      other.root.standing? (parent ++ [stem ++ ".expected"]) = some (.file text.toUTF8) ∧
      fs.root.standing? (parent ++ [stem ++ ".expected"]) ≠ some (.file text.toUTF8) := by
  obtain ⟨rom, ending, hread, hends, hbaseline⟩ := hsettled
  have hread' : fs.read path = .ok rom := (hdiffer.read_iff htest).1 hread
  obtain ⟨text, htext, hother⟩ : ∃ text, ending.comparable? = some text ∧
      fs.readText path.baseline ≠ .ok text := by
    refine by_contra fun hnone => hunsettled ⟨rom, ending, hread', hends, fun text htext => ?_⟩
    exact by_contra fun hother => hnone ⟨text, htext, hother⟩
  obtain ⟨parent, stem, hlies, -, -, hfile⟩ := exists_liesAt_of_read htest hread'
  obtain ⟨hdot, hfault, hsize, hstands⟩ :=
    (hlies.of_baselinesDiffer hdiffer).readText_baseline_iff.1 (hbaseline text htext)
  have hold : fs.root.standing? (parent ++ [stem ++ ".expected"]) ≠ some .directory := by
    rw [Ne, ← hdiffer.directory_iff, hstands]
    nofun
  obtain ⟨after, hwrite⟩ := hlies.exists_write_baseline hdot hfault hsize hold text.toUTF8
  exact ⟨parent, stem, text, after,
    ⟨htest, hlies, ⟨rom, ending, hread', hfile, hends, htext⟩, hwrite⟩, hstands, fun hsame =>
      hother (hlies.readText_baseline_iff.2 ⟨hdot, hfault, hsize, hsame⟩)⟩

/-- What has settled another test lies in the same place, so saving the other does the same. -/
theorem Saves.exists_saves_alike (h : fs.Saves seed path parent stem text after)
    (htest : next.isTest = true) (hsettled : after.Settled seed next)
    (hunsettled : ¬fs.Settled seed next) :
    ∃ parent' stem' after', fs.Saves seed next parent' stem' text after' ∧
      after.Alike after' := by
  obtain ⟨parent', stem', text', after', h', hstands, hother⟩ :=
    exists_saves_of_settled htest hsettled h.baselinesDiffer hunsettled
  rw [h.standing?_eq] at hstands
  split at hstands
  · rename_i hplace
    have htexts : text'.toUTF8 = text.toUTF8 :=
      (Standing.file.inj (Option.some.inj hstands)).symm
    obtain rfl : text' = text := String.toByteArray_inj.1 htexts
    refine ⟨parent', stem', after', h',
      h'.baselinesDiffer.working_eq.trans h.baselinesDiffer.working_eq.symm, ?_⟩
    intro names
    rw [h.standing?_eq, h'.standing?_eq, hplace]
  · exact absurd hstands hother

/-! ## Taking a test -/

theorem save_of_write {executed : FileTest}
    (hwrite : fs.write executed.path.baseline executed.test.actual.toUTF8 = .ok after) :
    (suiteHost seed).save fs executed = .ok after := by
  simp only [suiteHost]
  unfold FileTest.save
  rw [hwrite]

/-- With rebasing a test is either saved, or it is settled and everything stays as it is. -/
theorem takes_cases (htest : path.isTest = true)
    (htakes : Takes (suiteHost seed) true fs path verdict after) :
    (verdict = .incorrectResult ∧ ∃ parent stem text,
      fs.Saves seed path parent stem text after) ∨
      (verdict ≠ .incorrectResult ∧ after = fs ∧ fs.Settled seed path) := by
  cases htakes with
  | kept hload hexecute hkeep =>
      simp only [suiteHost] at hload hexecute
      have hverdict : verdict ≠ .incorrectResult := fun hverdict => hkeep ⟨hverdict, rfl⟩
      exact Or.inr ⟨hverdict, rfl, settled_of_execute hload hexecute hverdict⟩
  | saved hload hexecute _ hsave =>
      simp only [suiteHost] at hload hexecute hsave
      obtain ⟨parent, stem, hsaves⟩ := exists_saves htest hload hexecute hsave
      exact Or.inl ⟨rfl, parent, stem, _, hsaves⟩

/-- Taking a test changes baselines only, and settled tests stay settled. -/
theorem baselinesDiffer_of_takes (htest : path.isTest = true)
    (htakes : Takes (suiteHost seed) true fs path verdict after) :
    fs.BaselinesDiffer after ∧
      ∀ next : Path, next.isTest = true → fs.Settled seed next → after.Settled seed next := by
  obtain ⟨-, parent, stem, text, hsaves⟩ | ⟨-, rfl, -⟩ := takes_cases htest htakes
  · exact ⟨hsaves.baselinesDiffer, fun next hnext => hsaves.keeps_settled hnext⟩
  · exact ⟨.refl after, fun _ _ hsettled => hsettled⟩

/-- A settled test has an incorrect result no more, and any other verdict that it has had
again. -/
theorem Settled.takes (hsettled : fs.Settled seed path) (htest : path.isTest = true)
    (hdiffer : other.BaselinesDiffer fs)
    (htakes : Takes (suiteHost seed) true other path verdict after) :
    Takes (suiteHost seed) true fs path
      (if verdict = .incorrectResult then .passed else verdict) fs := by
  have hread : ∀ rom, other.read path = .ok rom ↔ fs.read path = .ok rom :=
    fun rom => (hdiffer.read_iff htest).symm
  have hkeep : ¬((if verdict = .incorrectResult then Verdict.passed else verdict) =
      .incorrectResult ∧ true = true) := by
    split
    · nofun
    · rename_i hverdict
      exact fun h => hverdict h.1
  have hagain : ∀ {test executed}, (suiteHost seed).load other path = .ok test →
      (suiteHost seed).execute test = (executed, verdict) →
      Takes (suiteHost seed) true fs path
        (if verdict = .incorrectResult then .passed else verdict) fs := by
    intro test executed hload hexecute
    simp only [suiteHost] at hload hexecute
    obtain ⟨test', executed', hload', hexecute'⟩ := hsettled.exists_load hread hload hexecute
    exact .kept hload' hexecute' hkeep
  cases htakes with
  | kept hload hexecute _ => exact hagain hload hexecute
  | saved hload hexecute _ _ => exact hagain hload hexecute

theorem Settled.of_takes (hsettled : fs.Settled seed path) (htest : path.isTest = true)
    (htakes : Takes (suiteHost seed) true fs path verdict after) :
    verdict ≠ .incorrectResult ∧ after = fs := by
  obtain ⟨hverdict, rfl⟩ := htakes.eq (hsettled.takes htest (.refl fs) htakes)
  refine ⟨?_, rfl⟩
  rintro rfl
  cases hverdict

/-- A test that is not settled is saved if it can be. -/
theorem Saves.takes (h : fs.Saves seed path parent stem text after)
    (hunsettled : ¬fs.Settled seed path) :
    Takes (suiteHost seed) true fs path .incorrectResult after := by
  obtain ⟨rom, ending, hread, -, hends, htext⟩ := h.ends
  obtain ⟨test, hload⟩ := FileTest.exists_load_of_read seed hread
  obtain ⟨hpath, hrom, hseed, -⟩ := FileTest.of_load_eq_ok hload
  have hverdict : test.execute = (test.execute.1, .incorrectResult) := by
    refine Prod.ext rfl (by_contra fun hverdict => hunsettled ?_)
    exact settled_of_execute hload rfl hverdict
  have hactual : test.execute.1.test.actual = text := by
    refine RomEnds.actual_eq ?_ htext
    rwa [Except.ok.inj (hrom.symm.trans hread), hseed]
  have hsave : (suiteHost seed).save fs test.execute.1 = .ok after := by
    refine save_of_write ?_
    have hsame : test.execute.1.path = path := hpath
    rw [hsame, hactual]
    exact h.write
  exact .saved hload hverdict rfl hsave

/-! ## Other listings -/

namespace Alike

theorem settled (h : fs.Alike other) (hsettled : fs.Settled seed path) :
    other.Settled seed path := by
  obtain ⟨rom, ending, hread, hends, hbaseline⟩ := hsettled
  exact ⟨rom, ending, h.read_iff.2 hread, hends,
    fun text htext => h.readText_iff.2 (hbaseline text htext)⟩

/-- The same test is loaded, but for what is told about a baseline that cannot be read. -/
theorem exists_load (h : fs.Alike other) {test : FileTest}
    (hload : FileTest.load seed fs path = .ok test) :
    ∃ test', FileTest.load seed other path = .ok test' ∧ test'.test = test.test := by
  rw [FileTest.load] at hload
  cases hread : fs.read path with
  | error cause => simp [hread] at hload
  | ok rom =>
      rw [FileTest.load, h.read_iff.2 hread]
      cases hexpected : fs.readText path.baseline with
      | ok expected =>
          simp only [hread, hexpected, Except.ok.injEq] at hload
          rw [h.readText_iff.2 hexpected]
          exact ⟨_, rfl, by rw [← hload]⟩
      | error cause =>
          simp only [hread, hexpected, Except.ok.injEq] at hload
          cases hother : other.readText path.baseline with
          | ok expected =>
              rw [h.readText_iff.1 hother] at hexpected
              cases hexpected
          | error cause' => exact ⟨_, rfl, by rw [← hload]⟩

/-- **A test is taken alike, however directories list their entries.** -/
theorem takes (h : fs.Alike other) (htest : path.isTest = true)
    (htakes : Takes (suiteHost seed) rebase fs path verdict after) :
    ∃ after', Takes (suiteHost seed) rebase other path verdict after' ∧ after.Alike after' := by
  by_cases hsaves : verdict = .incorrectResult ∧ rebase = true
  · obtain ⟨rfl, rfl⟩ := hsaves
    obtain ⟨-, parent, stem, text, hsaves⟩ :=
      (takes_cases htest htakes).resolve_right fun h => h.1 rfl
    obtain ⟨after', hsaves'⟩ := hsaves.of_baselinesDiffer h.baselinesDiffer
    have hunsettled : ¬other.Settled seed path := fun hsettled =>
      ((h.symm.settled hsettled).of_takes htest htakes).1 rfl
    refine ⟨after', hsaves'.takes hunsettled, ?_, fun names => ?_⟩
    · rw [hsaves'.baselinesDiffer.working_eq, hsaves.baselinesDiffer.working_eq, h.working_eq]
    · rw [hsaves'.standing?_eq, hsaves.standing?_eq, h.standing?_eq]
  · obtain rfl := htakes.eq_of_keep hsaves
    refine ⟨other, ?_, h⟩
    cases htakes with
    | kept hload hexecute hkeep =>
        simp only [suiteHost] at hload hexecute
        obtain ⟨test', hload', hsame⟩ := h.exists_load hload
        have hexecute' : test'.execute = (test'.execute.1, verdict) := by
          refine Prod.ext rfl ?_
          rw [FileTest.execute_eq, hsame]
          exact (FileTest.of_execute_eq hexecute).2
        exact .kept hload' hexecute' hkeep
    | saved _ _ hrebase _ => exact absurd ⟨rfl, hrebase⟩ hsaves

end Alike

/-! ## Neighbours -/

/-- Two tests that are saved one after the other: in the other order they are saved as well. -/
theorem Saves.swap (h : fs.Saves seed path parent stem text saved)
    (h' : saved.Saves seed next parent' stem' text' final) (hunsettled : ¬fs.Settled seed path)
    (hunsettled' : ¬saved.Settled seed next) :
    ∃ middle last, Takes (suiteHost seed) true fs next .incorrectResult middle ∧
      Takes (suiteHost seed) true middle path .incorrectResult last ∧ final.Alike last := by
  obtain ⟨middle, hnext⟩ := h'.of_baselinesDiffer h.baselinesDiffer.symm
  obtain ⟨last, hpath⟩ := h.of_baselinesDiffer hnext.baselinesDiffer
  have hnextUnsettled : ¬fs.Settled seed next :=
    fun hsettled => hunsettled' (h.keeps_settled h'.isTest hsettled)
  have hpathUnsettled : ¬middle.Settled seed path := by
    -- What settles the first would lie in the place of the second, and saving the first would
    -- settle the second.
    intro hsettled
    obtain ⟨parent'', stem'', other, hother, halike⟩ :=
      hnext.exists_saves_alike h.isTest hsettled hunsettled
    obtain rfl := h.eq hother
    exact hunsettled' (halike.settled hnext.settled)
  refine ⟨middle, last, hnext.takes hnextUnsettled, hpath.takes hpathUnsettled, ?_,
    fun names => ?_⟩
  · rw [hpath.baselinesDiffer.working_eq, hnext.baselinesDiffer.working_eq,
      h'.baselinesDiffer.working_eq, h.baselinesDiffer.working_eq]
  · rw [hpath.standing?_eq, hnext.standing?_eq, h'.standing?_eq, h.standing?_eq]
    by_cases hplaces : parent ++ [stem ++ ".expected"] = parent' ++ [stem' ++ ".expected"]
    · obtain ⟨rfl, rfl⟩ := append_expected_inj hplaces
      obtain rfl := h.text_eq h' h.baselinesDiffer
      grind
    · grind

/-- **Neighbours can change places.** -/
theorem exists_takes_swap (hpath : path.isTest = true) (hnext : next.isTest = true)
    (hfirst : Takes (suiteHost seed) true fs path verdict saved)
    (hsecond : Takes (suiteHost seed) true saved next verdict' final) :
    ∃ first second middle last, Takes (suiteHost seed) true fs next first middle ∧
      Takes (suiteHost seed) true middle path second last ∧
      [verdict, verdict'].Perm [first, second] ∧
      final.Alike last := by
  obtain ⟨rfl, parent, stem, text, h⟩ | ⟨hverdict, rfl, hsettled⟩ := takes_cases hpath hfirst
  · have hunsettled : ¬fs.Settled seed path :=
      fun hsettled => (hsettled.of_takes hpath hfirst).1 rfl
    by_cases hbefore : fs.Settled seed next
    · -- The second was settled before.  It passes first, and the first is saved then.
      obtain ⟨hverdict', rfl⟩ := (h.keeps_settled hnext hbefore).of_takes hnext hsecond
      have htakes := hbefore.takes hnext h.baselinesDiffer.symm hsecond
      rw [if_neg hverdict'] at htakes
      exact ⟨_, _, fs, final, htakes, hfirst, List.Perm.swap _ _ _, .refl final⟩
    · obtain ⟨rfl, parent', stem', text', h'⟩ | ⟨-, rfl, hafter⟩ := takes_cases hnext hsecond
      · -- Both are saved, in places of their own or with the same text.
        have hafter : ¬saved.Settled seed next :=
          fun hsettled => (hsettled.of_takes hnext hsecond).1 rfl
        obtain ⟨middle, last, hnextTakes, hpathTakes, halike⟩ := h.swap h' hunsettled hafter
        exact ⟨_, _, middle, last, hnextTakes, hpathTakes, .refl _, halike⟩
      · -- The first has settled the second, so the second settles the first.
        obtain ⟨parent', stem', middle, h', halike⟩ := h.exists_saves_alike hnext hafter hbefore
        have hnextTakes := h'.takes hbefore
        obtain ⟨rfl, -⟩ := hsecond.eq (hafter.takes hnext h.baselinesDiffer hnextTakes)
        exact ⟨_, _, middle, middle, hnextTakes,
          (halike.settled h.settled).takes hpath h'.baselinesDiffer hfirst, .refl _, halike⟩
  · -- The first leaves everything as it is, and finds the same verdict behind the second.
    obtain ⟨hdiffer, hkeeps⟩ := baselinesDiffer_of_takes hnext hsecond
    have htakes := (hkeeps path hpath hsettled).takes hpath hdiffer hfirst
    rw [if_neg hverdict] at htakes
    exact ⟨_, _, final, final, hsecond, htakes, List.Perm.swap _ _ _, .refl final⟩

end FileSystem

/-- **A queue of tests may stand in any order.** -/
theorem suiteHost_interchanges (seed : UInt64) (rebase : Bool) :
    Interchanges (suiteHost seed) rebase (fun path => path.isTest = true) FileSystem.Alike where
  refl := FileSystem.Alike.refl
  trans := FileSystem.Alike.trans
  congr htest halike htakes := halike.takes htest htakes
  swap {fs saved final path next verdict verdict'} hpath hnext hfirst hsecond := by
    cases rebase with
    | true => exact FileSystem.exists_takes_swap hpath hnext hfirst hsecond
    | false =>
        obtain rfl := hfirst.eq_of_keep fun hsaves => Bool.false_ne_true hsaves.2
        obtain rfl := hsecond.eq_of_keep fun hsaves => Bool.false_ne_true hsaves.2
        exact ⟨verdict', verdict, _, _, hsecond, hfirst, List.Perm.swap _ _ _, .refl _⟩

end GoldenRom

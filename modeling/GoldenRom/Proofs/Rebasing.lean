import GoldenRom.Proofs.Discovery
import GoldenRom.Proofs.Endings
import GoldenRom.Proofs.Sessions

/-!
# Rebasing

A suite that is run with rebasing writes the actual output of every test with an incorrect
result beside the test.  What a test puts out depends on its ROM and on the seed, and no ROM is
written.  So after one such run every test that is judged by a text finds this text beside it,
and another run has nothing left to write.

## Main definitions

* `FileSystem.Settled`: the baseline of a test holds what the test puts out.

## Main results

* `Suite.rebase_converges`: what a run with rebasing writes, and what a second run does.
-/

namespace GoldenRom

/-! ## Loading, running and saving a test -/

namespace FileTest

variable {seed : UInt64} {fs after : FileSystem} {path : Path} {test : FileTest}

/-- A loaded test has the ROM of its path, and it expects what its baseline holds, or
nothing. -/
theorem of_load_eq_ok (hload : load seed fs path = .ok test) :
    test.path = path ∧ fs.read path = .ok test.test.rom ∧ test.test.seed = seed ∧
      (fs.readText path.baseline = .ok test.test.expected ∨
        test.test.expected = "" ∧ ∀ text, fs.readText path.baseline ≠ .ok text) := by
  rw [load] at hload
  cases hread : fs.read path with
  | error cause => simp [hread] at hload
  | ok rom =>
      cases hexpected : fs.readText path.baseline with
      | ok expected =>
          simp only [hread, hexpected, Except.ok.injEq] at hload
          subst hload
          exact ⟨rfl, rfl, rfl, Or.inl rfl⟩
      | error cause =>
          simp only [hread, hexpected, Except.ok.injEq] at hload
          subst hload
          exact ⟨rfl, rfl, rfl, Or.inr ⟨rfl, nofun⟩⟩

theorem exists_load_of_read (seed : UInt64) {rom : ByteArray} (hread : fs.read path = .ok rom) :
    ∃ test, load seed fs path = .ok test := by
  rw [load, hread]
  cases fs.readText path.baseline with
  | ok expected => exact ⟨_, rfl⟩
  | error cause => exact ⟨_, rfl⟩

/-- What executing a test leaves is the output test as its run leaves it, and the verdict is
that of the run. -/
theorem execute_eq (test : FileTest) :
    test.execute = ({ test with test := test.test.run }, test.test.judge.verdict) := by
  rw [← OutputTest.verdict_execute]
  rfl

theorem of_execute_eq {executed : FileTest} {verdict : Verdict}
    (hexecute : test.execute = (executed, verdict)) :
    { test with test := test.test.run } = executed ∧ test.test.judge.verdict = verdict :=
  Prod.mk.inj (test.execute_eq.symm.trans hexecute)

/-- A loaded test passes if what its ROM puts out is the text of its baseline.  No text that is
compared is empty, so a test without a baseline does not pass. -/
theorem verdict_eq_passed_iff (hload : load seed fs path = .ok test) {ending : RomEnding}
    (hends : RomEnds test.test.rom seed ending) :
    test.test.judge.verdict = .passed ↔
      ∃ text, ending.comparable? = some text ∧ fs.readText path.baseline = .ok text := by
  obtain ⟨-, -, rfl, hexpected⟩ := of_load_eq_ok hload
  rw [hends.verdict_eq_passed_iff]
  rcases hexpected with hexpected | ⟨hempty, hnone⟩
  · constructor
    · exact fun htext => ⟨_, htext, hexpected⟩
    · rintro ⟨text, htext, hread⟩
      obtain rfl : test.test.expected = text := Except.ok.inj (hexpected.symm.trans hread)
      exact htext
  · constructor
    · intro htext
      rw [hempty] at htext
      exact absurd htext (RomEnds.comparable?_ne_empty ending)
    · rintro ⟨text, -, hread⟩
      exact absurd hread (hnone text)

theorem write_of_save (hsave : save fs test = .ok after) :
    fs.write test.path.baseline test.test.actual.toUTF8 = .ok after := by
  unfold save at hsave
  split at hsave
  · rename_i hwrite
    rw [hwrite]
    exact congrArg Except.ok (Except.ok.inj hsave)
  · cases hsave

end FileTest

/-! ## Settled tests -/

namespace FileSystem

variable {seed : UInt64} {fs after : FileSystem}

/-- The test at a path can be read, and if what its ROM puts out from the seed is compared, its
baseline holds it. -/
def Settled (fs : FileSystem) (seed : UInt64) (path : Path) : Prop :=
  ∃ rom ending, fs.read path = .ok rom ∧ RomEnds rom seed ending ∧
    ∀ text, ending.comparable? = some text → fs.readText path.baseline = .ok text

/-- A test is saved: the text that its ROM puts out from the seed is written beside the ROM. -/
structure Saves (fs : FileSystem) (seed : UInt64) (path : Path) (parent : List String)
    (stem text : String) (after : FileSystem) : Prop where
  isTest : path.isTest = true
  lies : fs.LiesAt path parent stem
  ends : ∃ rom ending, fs.read path = .ok rom ∧
    fs.root.standing? (parent ++ [stem ++ ".test"]) = some (.file rom) ∧
    RomEnds rom seed ending ∧ ending.comparable? = some text
  write : fs.write path.baseline text.toUTF8 = .ok after

/-- **What a session saves** is the actual output of a test, beside the test. -/
theorem exists_saves {path : Path} (htest : path.isTest = true) {test executed : FileTest}
    (hload : FileTest.load seed fs path = .ok test)
    (hexecute : test.execute = (executed, .incorrectResult))
    (hsave : FileTest.save fs executed = .ok after) :
    ∃ parent stem, fs.Saves seed path parent stem executed.test.actual after := by
  obtain ⟨hpath, hread, hseed, -⟩ := FileTest.of_load_eq_ok hload
  obtain ⟨hexecuted, hverdict⟩ := FileTest.of_execute_eq hexecute
  obtain ⟨parent, stem, hlies, -, -, hfile⟩ := exists_liesAt_of_read htest hread
  obtain ⟨ending, hends⟩ := RomEnds.exists_romEnds test.test.rom test.test.seed
  obtain ⟨text, htext, -⟩ := hends.verdict_eq_incorrectResult_iff.1 hverdict
  have hactual : executed.test.actual = text := by
    rw [← hexecuted]
    exact hends.actual_eq htext
  have hwrite := FileTest.write_of_save hsave
  have hsame : executed.path = path := by
    rw [← hexecuted]
    exact hpath
  rw [hseed] at hends
  rw [hsame] at hwrite
  exact ⟨parent, stem, htest, hlies, ⟨_, ending, hread, hfile, hends, by rw [htext, hactual]⟩,
    hwrite⟩

namespace Saves

variable {path : Path} {parent : List String} {stem text : String}

theorem baselinesDiffer (h : fs.Saves seed path parent stem text after) :
    fs.BaselinesDiffer after :=
  h.lies.baselinesDiffer h.write

/-- A test that has been saved is settled. -/
theorem settled (h : fs.Saves seed path parent stem text after) : after.Settled seed path := by
  obtain ⟨rom, ending, hread, -, hends, htext⟩ := h.ends
  refine ⟨rom, ending, (h.baselinesDiffer.read_iff h.isTest).2 hread, hends,
    fun other hother => ?_⟩
  obtain rfl : text = other := Option.some.inj (htext.symm.trans hother)
  exact h.lies.readText_of_write_baseline h.write

/-- What stands where after a test has been saved. -/
theorem standing?_eq (h : fs.Saves seed path parent stem text after) (names : List String) :
    after.root.standing? names =
      if names = parent ++ [stem ++ ".expected"] then some (.file text.toUTF8)
      else fs.root.standing? names :=
  h.lies.standing?_of_write_baseline h.write names

/-- **A settled test stays settled.**  If another test is saved to the same baseline, it lies in
the same place, so it has the same ROM and puts out the same text. -/
theorem keeps_settled (h : fs.Saves seed path parent stem text after) {other : Path}
    (htest : other.isTest = true) (hother : fs.Settled seed other) :
    after.Settled seed other := by
  obtain ⟨rom, ending, hread, hends, hsettled⟩ := hother
  refine ⟨rom, ending, (h.baselinesDiffer.read_iff htest).2 hread, hends,
    fun expected hexpected => ?_⟩
  obtain ⟨parent', stem', hlies, -, -, hfile⟩ := exists_liesAt_of_read htest hread
  obtain ⟨hdot, hfault, hsize, hbaseline⟩ :=
    hlies.readText_baseline_iff.1 (hsettled expected hexpected)
  refine (hlies.of_baselinesDiffer h.baselinesDiffer).readText_baseline_iff.2
    ⟨hdot, hfault, hsize, ?_⟩
  rw [h.standing?_eq]
  split
  · rename_i hsame
    obtain ⟨rfl, rfl⟩ := append_expected_inj hsame
    obtain ⟨rom', ending', -, hfile', hends', htext⟩ := h.ends
    obtain rfl : rom' = rom := by
      rw [hfile] at hfile'
      exact (Standing.file.inj (Option.some.inj hfile')).symm
    obtain rfl := hends.eq hends'
    obtain rfl : text = expected := Option.some.inj (htext.symm.trans hexpected)
    rfl
  · exact hbaseline

end Saves

/-- A test whose result is not incorrect is settled. -/
theorem settled_of_execute {path : Path} {test executed : FileTest} {verdict : Verdict}
    (hload : FileTest.load seed fs path = .ok test)
    (hexecute : test.execute = (executed, verdict)) (hverdict : verdict ≠ .incorrectResult) :
    fs.Settled seed path := by
  obtain ⟨-, hread, hseed, -⟩ := FileTest.of_load_eq_ok hload
  obtain ⟨-, rfl⟩ := FileTest.of_execute_eq hexecute
  obtain ⟨ending, hends⟩ := RomEnds.exists_romEnds test.test.rom test.test.seed
  refine ⟨_, ending, hread, hseed ▸ hends, fun text htext => ?_⟩
  have hexpected : text = test.test.expected :=
    by_contra fun hother =>
      hverdict (hends.verdict_eq_incorrectResult_iff.2 ⟨text, htext, hother⟩)
  have hpassed : test.test.judge.verdict = .passed :=
    hends.verdict_eq_passed_iff.2 (hexpected ▸ htext)
  obtain ⟨other, hother, hbaseline⟩ :=
    (FileTest.verdict_eq_passed_iff hload (hseed ▸ hends)).1 hpassed
  obtain rfl : text = other := Option.some.inj (htext.symm.trans hother)
  exact hbaseline

/-- **A settled test has an incorrect result no more.**  Any other verdict that it had before it
has again. -/
theorem Settled.exists_load {path : Path} (hsettled : fs.Settled seed path)
    {earlier : FileSystem} {test executed : FileTest} {verdict : Verdict}
    (hread : ∀ rom, earlier.read path = .ok rom ↔ fs.read path = .ok rom)
    (hload : FileTest.load seed earlier path = .ok test)
    (hexecute : test.execute = (executed, verdict)) :
    ∃ test' executed', FileTest.load seed fs path = .ok test' ∧
      test'.execute = (executed', if verdict = .incorrectResult then .passed else verdict) := by
  obtain ⟨rom, ending, hrom, hends, htexts⟩ := hsettled
  obtain ⟨test', hload'⟩ := FileTest.exists_load_of_read seed hrom
  obtain ⟨-, hearlier, hseed, -⟩ := FileTest.of_load_eq_ok hload
  obtain ⟨-, hrom', hseed', -⟩ := FileTest.of_load_eq_ok hload'
  obtain ⟨-, rfl⟩ := FileTest.of_execute_eq hexecute
  have hends' : RomEnds test'.test.rom test'.test.seed ending := by
    rwa [hseed', Except.ok.inj (hrom'.symm.trans hrom)]
  have hends'' : RomEnds test.test.rom test.test.seed ending := by
    rwa [hseed, Except.ok.inj (((hread _).1 hearlier).symm.trans hrom)]
  refine ⟨test', _, hload', test'.execute_eq.trans (Prod.ext rfl ?_)⟩
  dsimp only
  cases hcomparable : ending.comparable? with
  | none =>
      have hverdict : test.test.judge.verdict ≠ .incorrectResult := by
        intro hincorrect
        obtain ⟨text, htext, -⟩ := hends''.verdict_eq_incorrectResult_iff.1 hincorrect
        rw [hcomparable] at htext
        cases htext
      rw [if_neg hverdict]
      exact RomEnds.verdict_eq_of_comparable?_eq_none hends' hends'' hcomparable
  | some text =>
      have hpassed : test'.test.judge.verdict = .passed :=
        (FileTest.verdict_eq_passed_iff hload' (hseed' ▸ hends')).2
          ⟨text, hcomparable, htexts text hcomparable⟩
      rw [hpassed]
      split
      · rfl
      · rename_i hverdict
        have hexpected : text = test.test.expected :=
          by_contra fun hother =>
            hverdict (hends''.verdict_eq_incorrectResult_iff.2 ⟨text, hcomparable, hother⟩)
        exact (hends''.verdict_eq_passed_iff.2 (hexpected ▸ hcomparable)).symm

/-- A settled test can be loaded and has no incorrect result. -/
theorem Settled.verdict_ne {path : Path} (hsettled : fs.Settled seed path) :
    ∃ test, FileTest.load seed fs path = .ok test ∧ test.execute.2 ≠ .incorrectResult := by
  obtain ⟨rom, ending, hrom, hends, htexts⟩ := hsettled
  obtain ⟨test, hload⟩ := FileTest.exists_load_of_read seed hrom
  obtain ⟨-, hrom', hseed, -⟩ := FileTest.of_load_eq_ok hload
  obtain rfl : test.test.rom = rom := Except.ok.inj (hrom'.symm.trans hrom)
  subst hseed
  refine ⟨test, hload, fun hincorrect => ?_⟩
  have hverdict : test.test.judge.verdict = .incorrectResult := by
    rwa [FileTest.execute_eq] at hincorrect
  obtain ⟨text, htext, -⟩ := hends.verdict_eq_incorrectResult_iff.1 hverdict
  have hpassed :=
    (FileTest.verdict_eq_passed_iff hload hends).2 ⟨text, htext, htexts text htext⟩
  rw [hverdict] at hpassed
  cases hpassed

/-- What a test has put out when its result was incorrect is what its baseline holds once it is
settled. -/
theorem Settled.readText_baseline {path : Path} (hsettled : fs.Settled seed path)
    {earlier : FileSystem} {test executed : FileTest}
    (hread : ∀ rom, earlier.read path = .ok rom ↔ fs.read path = .ok rom)
    (hload : FileTest.load seed earlier path = .ok test)
    (hexecute : test.execute = (executed, .incorrectResult)) :
    fs.readText path.baseline = .ok executed.test.actual := by
  obtain ⟨rom, ending, hrom, hends, htexts⟩ := hsettled
  obtain ⟨-, hearlier, hseed, -⟩ := FileTest.of_load_eq_ok hload
  obtain ⟨rfl, hverdict⟩ := FileTest.of_execute_eq hexecute
  have hends' : RomEnds test.test.rom test.test.seed ending := by
    rwa [hseed, Except.ok.inj (((hread _).1 hearlier).symm.trans hrom)]
  obtain ⟨text, htext, -⟩ := hends'.verdict_eq_incorrectResult_iff.1 hverdict
  exact (htexts text htext).trans (congrArg Except.ok (hends'.actual_eq htext).symm)

/-- What stands where after several tests have been saved one after the other. -/
theorem standing?_of_foldlM_save {tests : List FileTest} {start final : FileSystem}
    (hstart : fs.BaselinesDiffer start)
    (hlies : ∀ executed ∈ tests, ∃ parent stem, fs.LiesAt executed.path parent stem)
    (hsaves : tests.foldlM FileTest.save start = .ok final) (names : List String) :
    final.root.standing? names = start.root.standing? names ∨
      ∃ executed ∈ tests, ∃ parent stem, fs.LiesAt executed.path parent stem ∧
        names = parent ++ [stem ++ ".expected"] ∧
        final.root.standing? names = some (.file executed.test.actual.toUTF8) := by
  induction tests generalizing start with
  | nil =>
      obtain rfl := Except.ok.inj hsaves
      exact Or.inl rfl
  | cons executed tests ih =>
      rw [List.foldlM_cons, bind_eq_ok_iff] at hsaves
      obtain ⟨middle, hsave, hsaves⟩ := hsaves
      obtain ⟨parent, stem, hhere⟩ := hlies executed List.mem_cons_self
      have hwrite := FileTest.write_of_save hsave
      have hmiddle := hhere.of_baselinesDiffer hstart
      have hrest := ih (hstart.trans (hmiddle.baselinesDiffer hwrite))
        (fun other hmem => hlies other (List.mem_cons_of_mem executed hmem)) hsaves
      rcases hrest with hsame | ⟨other, hmem, h⟩
      · rw [hsame, hmiddle.standing?_of_write_baseline hwrite]
        split
        · rename_i hnames
          exact Or.inr ⟨executed, List.mem_cons_self, parent, stem, hhere, hnames, rfl⟩
        · exact Or.inl rfl
      · exact Or.inr ⟨other, List.mem_cons_of_mem executed hmem, h⟩

end FileSystem

/-! ## Runs with rebasing -/

namespace Suite

variable {fs : FileSystem} {searchPaths : List Path} {seed : UInt64}

/-- The file system differs from an earlier one in baselines only, and the same tests are found
in it. -/
def Follows (fs : FileSystem) (searchPaths : List Path) (reached : FileSystem) : Prop :=
  fs.BaselinesDiffer reached ∧ reached.findTests searchPaths = fs.findTests searchPaths

/-- Saving a test of the queue. -/
theorem Follows.save {reached saved : FileSystem} (h : Follows fs searchPaths reached)
    {path : Path} (hmem : path ∈ fs.findTests searchPaths) {test executed : FileTest}
    (hload : (suiteHost seed).load reached path = .ok test)
    (hexecute : (suiteHost seed).execute test = (executed, .incorrectResult))
    (hsave : (suiteHost seed).save reached executed = .ok saved) :
    Follows fs searchPaths saved ∧ saved.Settled seed path ∧
      ∀ other ∈ fs.findTests searchPaths, reached.Settled seed other →
        saved.Settled seed other := by
  simp only [suiteHost] at hload hexecute hsave
  obtain ⟨parent, stem, hsaves⟩ :=
    FileSystem.exists_saves (FileSystem.isTest_of_mem_findTests hmem) hload hexecute hsave
  refine ⟨⟨h.1.trans hsaves.baselinesDiffer, ?_⟩, hsaves.settled, fun other hother =>
    hsaves.keeps_settled (FileSystem.isTest_of_mem_findTests hother)⟩
  rw [FileSystem.findTests_of_write_baseline hsaves.lies hsaves.write, h.2]

theorem follows_refl (fs : FileSystem) (searchPaths : List Path) : Follows fs searchPaths fs :=
  ⟨.refl fs, rfl⟩

theorem Follows.read_iff {reached : FileSystem} (h : Follows fs searchPaths reached)
    {path : Path} (hmem : path ∈ fs.findTests searchPaths) (rom : ByteArray) :
    reached.read path = .ok rom ↔ fs.read path = .ok rom :=
  h.1.read_iff (FileSystem.isTest_of_mem_findTests hmem)

theorem savesKeep_follows (fs : FileSystem) (searchPaths : List Path) (seed : UInt64) :
    (suiteHost seed).SavesKeep (fs.findTests searchPaths) (Follows fs searchPaths) := by
  intro world path test executed saved hmem hworld hload hexecute hsave
  exact (hworld.save hmem hload hexecute hsave).1

/-- A run with rebasing leaves a file system that differs in baselines only. -/
theorem follows_run (fs : FileSystem) (searchPaths : List Path) (seed : UInt64) :
    Follows fs searchPaths (run ⟨searchPaths, seed, true⟩ fs).world :=
  Runner.run_world_induction (savesKeep_follows fs searchPaths seed) { rebase := true }
    (follows_refl fs searchPaths)

/-- The saves of a run with rebasing make the file system that it leaves behind. -/
theorem foldlM_save_rebased (fs : FileSystem) (searchPaths : List Path) (seed : UInt64) :
    (run ⟨searchPaths, seed, true⟩ fs).rebased.foldlM FileTest.save fs =
      .ok (run ⟨searchPaths, seed, true⟩ fs).world := by
  have hsaves :=
    Runner.foldlM_save_rebased (suiteHost seed) { rebase := true } fs (fs.findTests searchPaths)
  have hsave : (suiteHost seed).save = FileTest.save := by simp only [suiteHost]
  rw [hsave] at hsaves
  exact hsaves

/-- A run with rebasing that ends without an error settles every test that it has found. -/
theorem settled_run {summary : Summary}
    (hresult : (run ⟨searchPaths, seed, true⟩ fs).result = .ok summary) :
    ∀ path ∈ fs.findTests searchPaths,
      (run ⟨searchPaths, seed, true⟩ fs).world.Settled seed path := by
  refine Runner.run_settles (fun world path => world.Settled seed path) rfl
    (follows_refl fs searchPaths) ?_ ?_ hresult
  · intro world path test executed saved hmem hworld hload hexecute hsave
    exact hworld.save hmem hload hexecute hsave
  · intro world path test executed verdict hmem hworld hload hexecute hverdict
    simp only [suiteHost] at hload hexecute
    exact FileSystem.settled_of_execute hload hexecute hverdict

/-- What a run with rebasing has saved are tests that it has found, which had an incorrect
result in the file system that the saves before them had made. -/
theorem exists_of_rebased {before after : List FileTest} {executed : FileTest}
    (hrebased : (run ⟨searchPaths, seed, true⟩ fs).rebased = before ++ executed :: after) :
    ∃ reached test, before.foldlM FileTest.save fs = .ok reached ∧
      Follows fs searchPaths reached ∧
      executed.path ∈ fs.findTests searchPaths ∧
      FileTest.load seed reached executed.path = .ok test ∧
      test.execute = (executed, .incorrectResult) := by
  obtain ⟨path, hmem, reached, test, hreached, hfollows, hload, hexecute⟩ :=
    Runner.exists_of_rebased (savesKeep_follows fs searchPaths seed)
      (follows_refl fs searchPaths) hrebased
  simp only [suiteHost] at hload hexecute hreached
  obtain rfl : executed.path = path :=
    (congrArg FileTest.path (Prod.mk.inj hexecute).1).symm.trans
      (FileTest.of_load_eq_ok hload).1
  exact ⟨reached, test, hreached, hfollows, hmem, hload, hexecute⟩

/-- A test that a run with rebasing has saved could be read before the run. -/
theorem exists_read_of_rebased {executed : FileTest}
    (hmem : executed ∈ (run ⟨searchPaths, seed, true⟩ fs).rebased) :
    executed.path.isTest = true ∧ ∃ rom, fs.read executed.path = .ok rom := by
  obtain ⟨before, after, hrebased⟩ := List.append_of_mem hmem
  obtain ⟨reached, test, -, hfollows, hfound, hload, -⟩ := exists_of_rebased hrebased
  exact ⟨FileSystem.isTest_of_mem_findTests hfound, _,
    (hfollows.read_iff hfound _).1 (FileTest.of_load_eq_ok hload).2.1⟩

/-- After a run with rebasing that ends without an error, the baseline of every saved test holds
what it has put out. -/
theorem readText_of_rebased {summary : Summary}
    (hresult : (run ⟨searchPaths, seed, true⟩ fs).result = .ok summary) {executed : FileTest}
    (hmem : executed ∈ (run ⟨searchPaths, seed, true⟩ fs).rebased) :
    (run ⟨searchPaths, seed, true⟩ fs).world.readText executed.path.baseline =
      .ok executed.test.actual := by
  obtain ⟨before, after, hrebased⟩ := List.append_of_mem hmem
  obtain ⟨reached, test, -, hfollows, hfound, hload, hexecute⟩ := exists_of_rebased hrebased
  refine (settled_run hresult executed.path hfound).readText_baseline (fun rom => ?_)
    hload hexecute
  rw [hfollows.read_iff hfound, (follows_run fs searchPaths seed).read_iff hfound]

/-- A second run after one with rebasing that has ended without an error. -/
theorem run_again {summary : Summary}
    (hresult : (run ⟨searchPaths, seed, true⟩ fs).result = .ok summary) (rebase : Bool)
    {settled : FileSystem} (hsettled : (run ⟨searchPaths, seed, true⟩ fs).world = settled) :
    (run ⟨searchPaths, seed, rebase⟩ settled).world = settled ∧
      (run ⟨searchPaths, seed, rebase⟩ settled).rebased = [] ∧
      (run ⟨searchPaths, seed, rebase⟩ settled).result =
        .ok ⟨summary.passed + summary.rebased, summary.failed, 0⟩ := by
  have hfollows : Follows fs searchPaths settled := hsettled ▸ follows_run fs searchPaths seed
  have hall : ∀ path ∈ fs.findTests searchPaths, settled.Settled seed path :=
    hsettled ▸ settled_run hresult
  have hrepeats : Runner.Repeats (suiteHost seed) settled (fs.findTests searchPaths)
      { rebase := true }
      { rebase := rebase } summary := by
    refine Runner.run_again settled rfl (follows_refl fs searchPaths)
      (savesKeep_follows fs searchPaths seed) ?_ hresult _
    intro world path test executed verdict hmem hworld hload hexecute
    simp only [suiteHost] at hload hexecute ⊢
    have hread : ∀ rom, world.read path = .ok rom ↔ settled.read path = .ok rom :=
      fun rom => (hworld.read_iff hmem rom).trans (hfollows.read_iff hmem rom).symm
    exact (hall path hmem).exists_load hread hload hexecute
  obtain ⟨⟨passed, failed, rebased⟩, hsecond, hpassed, hfailed, hnone⟩ := hrepeats.counts
  simp only [Nat.zero_add, Nat.add_zero] at hpassed hfailed hnone
  subst hpassed hfailed hnone
  unfold run
  rw [hfollows.2]
  exact ⟨hrepeats.world_eq, hrepeats.rebased_eq, hsecond⟩

/-- **Rebasing converges after one run.**  Let a run with rebasing end without an error.  It
writes what a list of tests puts out, one after the other, each of which is in the queue and had
an incorrect result when it ran; there are as many as it counts.  Afterwards their baselines
hold what they have put out; a baseline lies beside its test, and nothing else has changed, so
every test file can be read as before.  The same tests are found, and none of them has an
incorrect result any more.  A second run from the same seed, with rebasing or without, writes
nothing, and counts as passed what the first one has counted as passed or rebased. -/
theorem rebase_converges {session : Session FileSystem Path FileTest SuiteError}
    {summary : Summary} (hsession : run ⟨searchPaths, seed, true⟩ fs = session)
    (hresult : session.result = .ok summary) :
    session.rebased.foldlM FileTest.save fs = .ok session.world ∧
      (∀ before executed after, session.rebased = before ++ executed :: after →
        ∃ reached test, before.foldlM FileTest.save fs = .ok reached ∧
          executed.path ∈ fs.findTests searchPaths ∧
          FileTest.load seed reached executed.path = .ok test ∧
          test.execute = (executed, .incorrectResult)) ∧
      summary.rebased = session.rebased.length ∧
      (∀ executed ∈ session.rebased,
        session.world.readText executed.path.baseline = .ok executed.test.actual) ∧
      (∀ names, session.world.root.standing? names = fs.root.standing? names ∨
        ∃ executed ∈ session.rebased, ∃ parent stem,
          fs.locate executed.path = .ok (parent ++ [stem ++ ".test"]) ∧
            names = parent ++ [stem ++ ".expected"] ∧
            session.world.root.standing? names = some (.file executed.test.actual.toUTF8)) ∧
      (∀ path rom, path.isTest = true →
        (session.world.read path = .ok rom ↔ fs.read path = .ok rom)) ∧
      session.world.findTests searchPaths = fs.findTests searchPaths ∧
      (∀ path ∈ fs.findTests searchPaths,
        ∃ test, FileTest.load seed session.world path = .ok test ∧
          test.execute.2 ≠ .incorrectResult) ∧
      ∀ rebase,
        (run ⟨searchPaths, seed, rebase⟩ session.world).world = session.world ∧
          (run ⟨searchPaths, seed, rebase⟩ session.world).rebased = [] ∧
          (run ⟨searchPaths, seed, rebase⟩ session.world).result =
            .ok ⟨summary.passed + summary.rebased, summary.failed, 0⟩ := by
  subst hsession
  have hfollows := follows_run fs searchPaths seed
  refine ⟨foldlM_save_rebased fs searchPaths seed, fun before executed after hrebased => ?_,
    (Runner.rebased_eq_add_length hresult).trans (Nat.zero_add _),
    fun executed hmem => readText_of_rebased hresult hmem,
    fun names => ?_, fun path rom htest => hfollows.1.read_iff htest, hfollows.2,
    fun path hmem => (settled_run hresult path hmem).verdict_ne,
    fun rebase => run_again hresult rebase rfl⟩
  · obtain ⟨reached, test, hreached, -, hfound, hload, hexecute⟩ := exists_of_rebased hrebased
    exact ⟨reached, test, hreached, hfound, hload, hexecute⟩
  · have hlies : ∀ executed ∈ (run ⟨searchPaths, seed, true⟩ fs).rebased,
        ∃ parent stem, fs.LiesAt executed.path parent stem := by
      intro executed hmem
      obtain ⟨htest, rom, hread⟩ := exists_read_of_rebased hmem
      obtain ⟨parent, stem, hlies, -⟩ := FileSystem.exists_liesAt_of_read htest hread
      exact ⟨parent, stem, hlies⟩
    obtain hsame | ⟨executed, hmem, parent, stem, hhere, hnames, hstands⟩ :=
      FileSystem.standing?_of_foldlM_save (.refl fs) hlies
        (foldlM_save_rebased fs searchPaths seed) names
    · exact Or.inl hsame
    · obtain ⟨-, rom, hread⟩ := exists_read_of_rebased hmem
      exact Or.inr ⟨executed, hmem, parent, stem, hhere.locate_eq_ok hread, hnames, hstands⟩

/-- One test under two spellings. -/
def doneTwice : List Path :=
  [⟨"./done.test"⟩, ⟨"done.test"⟩]

theorem findTests_doneDirectory (expected : String) :
    (doneDirectory expected).findTests doneTwice = doneTwice := by
  have hfirst : (doneDirectory expected).testsAt ⟨"./done.test"⟩ = [⟨"./done.test"⟩] := by rfl
  have hsecond : (doneDirectory expected).testsAt ⟨"done.test"⟩ = [⟨"done.test"⟩] := by rfl
  have hsorted : Path.sortsBefore ⟨"./done.test"⟩ ⟨"done.test"⟩ = true := by decide
  rw [FileSystem.findTests, doneTwice, List.flatMap_cons, List.flatMap_cons, hfirst, hsecond]
  exact List.mergeSort_of_pairwise (by simp [hsorted])

theorem load_doneDirectory (expected : String) {path : Path} (hmem : path ∈ doneTwice) :
    (suiteHost 1).load (doneDirectory expected) path =
      .ok ⟨path, .new Machine.doneRom expected 1, none⟩ := by
  have hread : (doneDirectory expected).read path = .ok Machine.doneRom ∧
      (doneDirectory expected).read path.baseline = .ok expected.toUTF8 := by
    obtain rfl | rfl : path = ⟨"./done.test"⟩ ∨ path = ⟨"done.test"⟩ := by
      simpa [doneTwice] using hmem
    · exact ⟨rfl, rfl⟩
    · exact ⟨rfl, rfl⟩
  simp only [suiteHost]
  unfold FileTest.load
  rw [hread.1, FileSystem.readText_eq_ok_iff.2 hread.2]

theorem save_doneDirectory (expected : String) {test : FileTest}
    (hpath : test.path = ⟨"./done.test"⟩) :
    (suiteHost 1).save (doneDirectory expected) test =
      .ok (doneDirectory test.test.actual) := by
  have hwrite : ∀ text : String,
      (doneDirectory expected).write (Path.baseline ⟨"./done.test"⟩) text.toUTF8 =
        .ok (doneDirectory text) := by
    intro text
    rfl
  simp only [suiteHost]
  unfold FileTest.save
  rw [hpath, hwrite]

/-- Found twice, the test is saved when it runs first, and passes when it runs again. -/
theorem result_run_doneTwice :
    (run ⟨doneTwice, 1, true⟩ (doneDirectory "")).result = .ok ⟨1, 0, 1⟩ := by
  obtain ⟨ending, text, hends, htext⟩ :
      ∃ ending text, RomEnds Machine.doneRom 1 ending ∧ ending.comparable? = some text := by
    obtain ⟨final, hends⟩ := romEnds_doneRom 1
    exact ⟨_, _, hends, rfl⟩
  have hincorrect : (OutputTest.judge (.new Machine.doneRom "" 1)).verdict =
      .incorrectResult := by
    have hnonempty : text ≠ "" :=
      fun hempty => RomEnds.comparable?_ne_empty ending (htext.trans (congrArg some hempty))
    exact (RomEnds.verdict_eq_incorrectResult_iff hends).2 ⟨text, htext, hnonempty⟩
  have hpassed : (OutputTest.judge (.new Machine.doneRom text 1)).verdict = .passed :=
    (RomEnds.verdict_eq_passed_iff hends).2 htext
  have hexecute : ∀ path (test : OutputTest) verdict, test.judge.verdict = verdict →
      (suiteHost 1).execute ⟨path, test, none⟩ = (⟨path, test.run, none⟩, verdict) := by
    rintro path test _ rfl
    exact FileTest.execute_eq _
  have hsave : (suiteHost 1).save (doneDirectory "")
      ⟨⟨"./done.test"⟩, OutputTest.run (.new Machine.doneRom "" 1), none⟩ =
        .ok (doneDirectory text) := by
    rw [save_doneDirectory "" rfl, RomEnds.actual_eq hends htext]
  have hfirst :=
    Runner.run_cons_eq_of_rebased (rfl : Runner.rebase ⟨true, {}⟩ = true) [⟨"done.test"⟩]
    (load_doneDirectory "" List.mem_cons_self) (hexecute _ _ _ hincorrect) hsave
  obtain ⟨events, -, hsecond⟩ := Runner.exists_run_cons_eq ⟨true, ⟨0, 0, 1⟩⟩ []
    (load_doneDirectory text (List.mem_cons_of_mem _ List.mem_cons_self))
      (hexecute _ _ _ hpassed) nofun
  have hcounts : Runner.countRebased ⟨true, {}⟩ = ⟨true, ⟨0, 0, 1⟩⟩ := rfl
  unfold run
  rw [findTests_doneDirectory]
  dsimp only
  rw [doneTwice, hfirst, hcounts, Session.result_after, hsecond, Session.result_after,
    if_pos rfl, Runner.run_nil]
  rfl

theorem rebase_converges_when_found_twice :
    (run ⟨doneTwice, 1, true⟩ (doneDirectory "")).result = .ok ⟨1, 0, 1⟩ ∧
      (run ⟨doneTwice, 1, true⟩ (run ⟨doneTwice, 1, true⟩ (doneDirectory "")).world).rebased =
          [] ∧
      (run ⟨doneTwice, 1, true⟩ (run ⟨doneTwice, 1, true⟩ (doneDirectory "")).world).result =
        .ok ⟨2, 0, 0⟩ := by
  obtain ⟨-, -, -, -, -, -, -, -, hagain⟩ := rebase_converges rfl result_run_doneTwice
  exact ⟨result_run_doneTwice, (hagain true).2⟩

end Suite

end GoldenRom

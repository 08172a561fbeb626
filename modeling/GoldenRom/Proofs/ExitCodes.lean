import GoldenRom.CommandLine.Program
import GoldenRom.Proofs.Rebasing

/-!
# Exit codes

The command that tests a suite reports with its exit code whether every test has passed.  Here
this is told from the files: a test passes if its ROM puts out a text and the file beside it
holds that text.  There is one name for which this fails.  What lies beside `..test` is
`..expected`, but no extension is exchanged in this name, so such a test has no baseline and
never passes.

## Main definitions

* `PutsOut`: the text that a ROM puts out from a seed.
* `Path.IsSibling`: the path of a test and that of the file beside it.
* `FileSystem.Meets`: a ROM puts out what the file beside it holds.
* `FileSystem.Discovers`: the tests that a list of search paths stands for.

## Main results

* `exitCode_runProgram_test`: when the command exits with 0, and that it writes nothing.
-/

namespace GoldenRom

/-- The text that a ROM puts out from a seed: the dump of the state in which it halts, or the
fault that it stops with. -/
def PutsOut (rom : ByteArray) (seed : UInt64) (text : String) : Prop :=
  (∃ cycles final, RomEnds rom seed (.halted cycles final) ∧ text = final.state.dump) ∨
    ∃ cause last, RomEnds rom seed (.faulted cause last) ∧ text = (Fault.program cause).message

theorem putsOut_iff {rom : ByteArray} {seed : UInt64} {text : String} :
    PutsOut rom seed text ↔ ∃ ending, RomEnds rom seed ending ∧
      ending.comparable? = some text := by
  constructor
  · rintro (⟨cycles, final, hends, rfl⟩ | ⟨cause, last, hends, rfl⟩)
    · exact ⟨_, hends, rfl⟩
    · exact ⟨_, hends, rfl⟩
  · rintro ⟨ending, hends, htext⟩
    cases ending with
    | halted cycles final => exact Or.inl ⟨cycles, final, hends, (Option.some.inj htext).symm⟩
    | faulted cause last => exact Or.inr ⟨cause, last, hends, (Option.some.inj htext).symm⟩
    | timedOut final => cases htext
    | tooLarge => cases htext

/-- A ROM that puts out a text fits into memory. -/
theorem PutsOut.size_le {rom : ByteArray} {seed : UInt64} {text : String}
    (h : PutsOut rom seed text) : rom.size ≤ 0xE00 := by
  obtain ⟨ending, hends, htext⟩ := putsOut_iff.1 h
  refine Nat.le_of_not_lt fun hlarge => ?_
  obtain rfl := hends.eq (.tooLarge hlarge)
  cases htext

/-! ## The file beside a test -/

namespace Path

variable {p sibling : Path}

/-- Two paths that differ in the extension of their last names only, which is that of a test and
that of a baseline. -/
def IsSibling (p sibling : Path) : Prop :=
  ∃ front stem, stem ≠ "" ∧ p.segments = front ++ [stem ++ ".test"] ∧
    sibling.segments = front ++ [stem ++ ".expected"]

/-- The baseline of a test is the file beside it. -/
theorem IsSibling.baseline_eq (h : p.IsSibling sibling) (hname : p.fileName? ≠ some "..test") :
    p.baseline = sibling := by
  obtain ⟨front, stem, hstem, hsegments, hsibling⟩ := h
  have hdot : stem ≠ "." := by
    rintro rfl
    exact hname (fileName?_of_segments hsegments (isProper_append_test "."))
  exact eq_of_segments_eq ((segments_baseline hstem hdot hsegments).trans hsibling.symm)

end Path

namespace FileSystem

variable {fs : FileSystem} {seed : UInt64} {p : Path} {rom : ByteArray}

/-- Unless it is called `..test`, a test that can be read has its baseline beside it. -/
theorem isSibling_baseline (htest : p.isTest = true) (hread : fs.read p = .ok rom)
    (hname : p.fileName? ≠ some "..test") : p.IsSibling p.baseline := by
  obtain ⟨front, name, hsegments, hproper⟩ := exists_segments_of_read hread
  obtain ⟨stem, hstem, rfl⟩ := (Path.isTest_iff_of_segments hsegments hproper).1 htest
  refine ⟨front, stem, hstem, hsegments, Path.segments_baseline hstem ?_ hsegments⟩
  rintro rfl
  exact hname (Path.fileName?_of_segments hsegments hproper)

/-- The baseline of a test called `..test` cannot be read. -/
theorem not_readText_baseline_of_dot (hread : fs.read p = .ok rom)
    (hname : p.fileName? = some "..test") (text : String) :
    fs.readText p.baseline ≠ .ok text := by
  obtain ⟨front, name, hsegments, hproper⟩ := exists_segments_of_read hread
  obtain rfl : name = "..test" :=
    Option.some.inj ((Path.fileName?_of_segments hsegments hproper).symm.trans hname)
  rw [Ne, readText_eq_ok_iff]
  exact not_read_of_segments_up (Path.segments_baseline_of_dot hsegments) _

/-- The file at a path is a ROM that fits into memory, and the file beside it holds the text
that the ROM puts out. -/
def Meets (fs : FileSystem) (seed : UInt64) (p : Path) : Prop :=
  ∃ rom sibling text, fs.read p = .ok rom ∧ rom.size ≤ 0xE00 ∧ PutsOut rom seed text ∧
    p.IsSibling sibling ∧
    fs.readText sibling = .ok text

/-- **When a test passes.** -/
theorem passes_iff (htest : p.isTest = true) :
    (∃ test executed, FileTest.load seed fs p = .ok test ∧ test.execute = (executed, .passed)) ↔
      p.fileName? ≠ some "..test" ∧ fs.Meets seed p := by
  constructor
  · rintro ⟨test, executed, hload, hexecute⟩
    obtain ⟨-, hread, rfl, -⟩ := FileTest.of_load_eq_ok hload
    obtain ⟨ending, hends⟩ := RomEnds.exists_romEnds test.test.rom test.test.seed
    have hpassed : test.test.judge.verdict = .passed := (FileTest.of_execute_eq hexecute).2
    obtain ⟨text, htext, hbaseline⟩ := (FileTest.verdict_eq_passed_iff hload hends).1 hpassed
    have hputs : PutsOut test.test.rom test.test.seed text :=
      putsOut_iff.2 ⟨ending, hends, htext⟩
    have hname : p.fileName? ≠ some "..test" :=
      fun hdot => not_readText_baseline_of_dot hread hdot text hbaseline
    exact ⟨hname, _, p.baseline, text, hread, hputs.size_le, hputs,
      isSibling_baseline htest hread hname, hbaseline⟩
  · rintro ⟨hname, rom, sibling, text, hread, -, hputs, hsibling, hexpected⟩
    obtain ⟨test, hload⟩ := FileTest.exists_load_of_read seed hread
    obtain ⟨-, hread', hseed, -⟩ := FileTest.of_load_eq_ok hload
    obtain rfl : test.test.rom = rom := Except.ok.inj (hread'.symm.trans hread)
    obtain ⟨ending, hends, htext⟩ := putsOut_iff.1 hputs
    have hbaseline : fs.readText p.baseline = .ok text := by rwa [hsibling.baseline_eq hname]
    have hpassed : test.test.judge.verdict = .passed :=
      (FileTest.verdict_eq_passed_iff hload hends).2 ⟨text, htext, hbaseline⟩
    exact ⟨test, _, hload, test.execute_eq.trans (Prod.ext rfl hpassed)⟩

/-- What a list of search paths stands for: the paths of tests at and below them that lead to no
directory. -/
def Discovers (fs : FileSystem) (searchPaths : List Path) (p : Path) : Prop :=
  (∃ start ∈ searchPaths, fs.Below start p) ∧ ¬fs.IsDirectory p ∧ p.isTest = true

end FileSystem

/-! ## The command -/

/-- **A suite without a failed test.** -/
theorem Suite.run_eq_ok_iff {fs : FileSystem} {searchPaths : List Path} {seed : UInt64} :
    (∃ summary, (run ⟨searchPaths, seed, false⟩ fs).result = .ok summary ∧ summary.failed = 0) ↔
      ∀ p ∈ fs.findTests searchPaths, p.fileName? ≠ some "..test" ∧ fs.Meets seed p := by
  unfold run
  rw [Runner.run_eq_ok_iff_of_not_rebase rfl, and_iff_right rfl]
  refine forall₂_congr fun p hmem => ?_
  rw [← FileSystem.passes_iff (FileSystem.isTest_of_mem_findTests hmem)]
  simp only [suiteHost]

/-- The command exits with 0 if its session ends without a failed test, and with 1 otherwise. -/
theorem exitCode_testCommand (least : LogLevel) (suite : Suite) (fs : FileSystem) :
    ((testCommand least suite fs).exitCode = 0 ↔
      ∃ summary, (suite.run fs).result = .ok summary ∧ summary.failed = 0) ∧
    ((testCommand least suite fs).exitCode = 0 ∨
      (testCommand least suite fs).exitCode = 1) := by
  rw [testCommand]
  cases hresult : (suite.run fs).result with
  | ok summary => cases hfailed : summary.allPassed <;> simp_all [Summary.allPassed]
  | error error => simp

theorem fileSystem_testCommand (least : LogLevel) (suite : Suite) (fs : FileSystem) :
    (testCommand least suite fs).fileSystem = (suite.run fs).world := by
  rw [testCommand]
  cases hresult : (suite.run fs).result with
  | ok summary => rfl
  | error error => rfl

theorem exitCode_testCommand_eq_zero_iff {fs : FileSystem} (hfs : fs.WellFormed)
    (least : LogLevel) (searchPaths : List Path) (seed : UInt64) :
    (testCommand least ⟨searchPaths, seed, false⟩ fs).exitCode = 0 ↔
      ∀ p, fs.Discovers searchPaths p → p.fileName? ≠ some "..test" ∧ fs.Meets seed p := by
  rw [(exitCode_testCommand least _ fs).1, Suite.run_eq_ok_iff]
  exact forall_congr' fun p => imp_congr_left (FileSystem.mem_findTests_iff hfs)

/-- A command line that asks for the test of a suite. -/
theorem runProgram_of_test {arguments : List String} {verbose rebase : Bool} {seed : UInt64}
    {searchPaths : List Path}
    (harguments : Invocation.ofArguments? arguments =
      some ⟨verbose, seed, .test rebase searchPaths⟩) (fs : FileSystem) :
    ∃ least, runProgram arguments fs = testCommand least ⟨searchPaths, seed, rebase⟩ fs := by
  rw [runProgram, harguments]
  exact ⟨_, rfl⟩

/-- **The exit code tells whether all tests pass.**  The command that tests a suite without
rebasing exits with 0 if and only if every test that it discovers is a ROM that puts out what
the file beside it holds, and none is called `..test`.  In all other cases it exits with 1.  In
either case the files stay as they are. -/
theorem exitCode_runProgram_test {arguments : List String} {verbose : Bool} {seed : UInt64}
    {searchPaths : List Path} {fs : FileSystem}
    (harguments : Invocation.ofArguments? arguments =
      some ⟨verbose, seed, .test false searchPaths⟩) (hfs : fs.WellFormed) :
    ((runProgram arguments fs).exitCode = 0 ↔
      ∀ p, fs.Discovers searchPaths p → p.fileName? ≠ some "..test" ∧ fs.Meets seed p) ∧
    ((runProgram arguments fs).exitCode = 0 ∨ (runProgram arguments fs).exitCode = 1) ∧
    (runProgram arguments fs).fileSystem = fs := by
  obtain ⟨least, hrun⟩ := runProgram_of_test harguments fs
  rw [hrun, fileSystem_testCommand]
  refine ⟨exitCode_testCommand_eq_zero_iff hfs least searchPaths seed,
    (exitCode_testCommand least _ fs).2, ?_⟩
  unfold Suite.run
  exact Runner.run_world_of_not_rebase rfl

theorem exists_putsOut_doneRom (seed : UInt64) : ∃ text, PutsOut Machine.doneRom seed text := by
  obtain ⟨final, hends⟩ := romEnds_doneRom seed
  exact ⟨_, Or.inl ⟨1, final, hends, rfl⟩⟩

theorem wellFormed_doneDirectory (expected : String) : (doneDirectory expected).WellFormed :=
  FileSystem.wellFormed_of_files [("done.test", Machine.doneRom),
    ("done.expected", expected.toUTF8)] []
    (show ["done.test", "done.expected"].Nodup by decide)
    (show ∀ name ∈ ["done.test", "done.expected"], FileSystem.IsEntryName name by decide)

theorem exitCode_runProgram_test_when_done :
    ∃ text, (runProgram ["test", "done.test"] (doneDirectory text)).exitCode = 0 ∧
      (runProgram ["test", "done.test"] (doneDirectory text)).fileSystem =
        doneDirectory text := by
  obtain ⟨text, hputs⟩ := exists_putsOut_doneRom defaultSeed
  have harguments : Invocation.ofArguments? ["test", "done.test"] =
      some ⟨false, defaultSeed, .test false [⟨"done.test"⟩]⟩ := by
    decide
  obtain ⟨hexit, -, hsame⟩ :=
    exitCode_runProgram_test harguments (wellFormed_doneDirectory text)
  refine ⟨text, hexit.2 fun p hp => ?_, hsame⟩
  have hfound := (FileSystem.mem_findTests_iff (wellFormed_doneDirectory text)).2 hp
  have htests : (doneDirectory text).testsAt ⟨"done.test"⟩ = [⟨"done.test"⟩] := by rfl
  rw [FileSystem.findTests, List.flatMap_singleton, htests, List.mergeSort_singleton] at hfound
  obtain rfl := List.mem_singleton.1 hfound
  have hsibling : Path.IsSibling ⟨"done.test"⟩ ⟨"done.expected"⟩ :=
    ⟨[], "done", by decide, by decide, by decide⟩
  have hexpected : (doneDirectory text).read ⟨"done.expected"⟩ = .ok text.toUTF8 := by rfl
  exact ⟨by decide, _, _, text, read_doneDirectory text, hputs.size_le, hputs, hsibling,
    FileSystem.readText_eq_ok_iff.2 hexpected⟩

/-- A working directory with a ROM called `..test` that halts with its first step, and an
expected text beside it. -/
def dotDirectory (expected : String) : FileSystem :=
  ⟨.directory [("..test", .file Machine.doneRom), ("..expected", .file expected.toUTF8)], []⟩

/-- What the ROM puts out lies beside it, and yet the test fails. -/
theorem exitCode_runProgram_test_of_dot :
    ∃ text, (dotDirectory text).WellFormed ∧
      Invocation.ofArguments? ["test", "."] = some ⟨false, defaultSeed, .test false [⟨"."⟩]⟩ ∧
      (∀ p, (dotDirectory text).Discovers [⟨"."⟩] p → (dotDirectory text).Meets defaultSeed p) ∧
      (runProgram ["test", "."] (dotDirectory text)).exitCode = 1 := by
  obtain ⟨text, hputs⟩ := exists_putsOut_doneRom defaultSeed
  have hwellFormed : (dotDirectory text).WellFormed :=
    FileSystem.wellFormed_of_files [("..test", Machine.doneRom), ("..expected", text.toUTF8)] []
      (show ["..test", "..expected"].Nodup by decide)
      (show ∀ name ∈ ["..test", "..expected"], FileSystem.IsEntryName name by decide)
  have harguments : Invocation.ofArguments? ["test", "."] =
      some ⟨false, defaultSeed, .test false [⟨"."⟩]⟩ := by
    decide
  have htests : (dotDirectory text).testsAt ⟨"."⟩ = [⟨"./..test"⟩] := by rfl
  have hdiscovers : ∀ p, (dotDirectory text).Discovers [⟨"."⟩] p ↔ p = ⟨"./..test"⟩ := by
    intro p
    rw [FileSystem.Discovers, ← FileSystem.mem_findTests_iff hwellFormed, FileSystem.findTests,
      List.flatMap_singleton, htests, List.mergeSort_singleton, List.mem_singleton]
  refine ⟨text, hwellFormed, harguments, fun p hp => ?_, ?_⟩
  · obtain rfl := (hdiscovers p).1 hp
    have hread : (dotDirectory text).read ⟨"./..test"⟩ = .ok Machine.doneRom := by rfl
    have hsibling : Path.IsSibling ⟨"./..test"⟩ ⟨"./..expected"⟩ :=
      ⟨["."], ".", by decide, by decide, by decide⟩
    have hexpected : (dotDirectory text).read ⟨"./..expected"⟩ = .ok text.toUTF8 := by rfl
    exact ⟨_, _, text, hread, hputs.size_le, hputs, hsibling,
      FileSystem.readText_eq_ok_iff.2 hexpected⟩
  · obtain ⟨least, hrun⟩ := runProgram_of_test harguments (dotDirectory text)
    rw [hrun]
    refine (exitCode_testCommand least _ _).2.resolve_left fun hexit => ?_
    rw [exitCode_testCommand_eq_zero_iff hwellFormed] at hexit
    exact (hexit _ ((hdiscovers _).2 rfl)).1 (by decide)

end GoldenRom

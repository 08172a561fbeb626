import Mathlib.Data.List.Induction
import GoldenRom.Proofs.Trees

/-!
# Tests beside their baselines

A test that can be read lies in a directory, under a stem followed by `.test`; its baseline lies
in the same directory, under the stem followed by `.expected`.  Writing baselines changes
neither the directories nor what any test file holds.

## Main definitions

* `FileSystem.LiesAt`: where a test lies.
* `FileSystem.BaselinesDiffer`: two file systems that differ at most in files with the extension
  of a baseline.

## Main results

* `FileSystem.BaselinesDiffer.read_iff`: then every test is read alike in both.
* `FileSystem.LiesAt.read_baseline_iff`, `FileSystem.LiesAt.of_write_baseline`: what reading and
  writing the baseline of a test does.
-/

namespace GoldenRom

namespace FileSystem

/-! ## File systems that differ in baselines -/

/-- Two file systems differ at most in files whose names end in `.expected`. -/
structure BaselinesDiffer (fs after : FileSystem) : Prop where
  working_eq : after.working = fs.working
  directory_iff : ∀ names, after.root.standing? names = some .directory ↔
    fs.root.standing? names = some .directory
  standing?_eq : ∀ names, (∀ front stem, names ≠ front ++ [stem ++ ".expected"]) →
    after.root.standing? names = fs.root.standing? names

namespace BaselinesDiffer

variable {fs middle after : FileSystem}

theorem refl (fs : FileSystem) : fs.BaselinesDiffer fs :=
  ⟨rfl, fun _ => Iff.rfl, fun _ _ => rfl⟩

theorem symm (h : fs.BaselinesDiffer after) : after.BaselinesDiffer fs :=
  ⟨h.working_eq.symm, fun names => (h.directory_iff names).symm,
    fun names hnames => (h.standing?_eq names hnames).symm⟩

theorem trans (h : fs.BaselinesDiffer middle) (h' : middle.BaselinesDiffer after) :
    fs.BaselinesDiffer after :=
  ⟨h'.working_eq.trans h.working_eq,
    fun names => (h'.directory_iff names).trans (h.directory_iff names), fun names hnames =>
      (h'.standing?_eq names hnames).trans (h.standing?_eq names hnames)⟩

theorem start_eq (h : fs.BaselinesDiffer after) (p : Path) : after.start p = fs.start p := by
  rw [start, start, h.working_eq]

/-- A step that leads to a directory leads there in both. -/
theorem enter_directory (h : fs.BaselinesDiffer after) {here next : List String}
    {segment : String} (henter : fs.enter here segment = .ok next)
    (hnext : fs.root.standing? next = some .directory) :
    after.enter here segment = .ok next := by
  obtain ⟨hhere, hcases⟩ := enter_eq_ok_iff.1 henter
  refine enter_eq_ok_iff.2 ⟨(h.directory_iff here).2 hhere, ?_⟩
  rcases hcases with hidle | hup | ⟨hname, hsize, -, rfl⟩
  · exact Or.inl hidle
  · exact Or.inr (Or.inl hup)
  · refine Or.inr (Or.inr ⟨hname, hsize, ?_, rfl⟩)
    rw [(h.directory_iff _).2 hnext]
    rfl

/-- A way that leads to a directory leads there in both. -/
theorem walk_directory (h : fs.BaselinesDiffer after) {start names : List String}
    {segments : List String} (hwalk : segments.foldlM fs.enter start = .ok names)
    (hnames : fs.root.standing? names = some .directory) :
    segments.foldlM after.enter start = .ok names := by
  induction segments using List.reverseRecOn generalizing names with
  | nil => exact hwalk
  | append_singleton front segment ih =>
      obtain ⟨here, hfront, henter⟩ := walk_concat_eq_ok_iff.1 hwalk
      exact walk_concat_eq_ok_iff.2 ⟨here, ih hfront (enter_eq_ok_iff.1 henter).1,
        h.enter_directory henter hnames⟩

end BaselinesDiffer

/-! ## Where a test lies -/

/-- The segments of a path lead to a directory, and its last one is a stem followed by
`.test`. -/
structure LiesAt (fs : FileSystem) (path : Path) (parent : List String) (stem : String) :
    Prop where
  stem_ne : stem ≠ ""
  directory : fs.root.standing? parent = some .directory
  walk : ∃ front, path.segments = front ++ [stem ++ ".test"] ∧
    front.foldlM fs.enter (fs.start path) = .ok parent

section LiesAt

variable {fs after : FileSystem} {path : Path} {parent : List String} {stem : String}

theorem LiesAt.of_baselinesDiffer (hlies : fs.LiesAt path parent stem)
    (h : fs.BaselinesDiffer after) : after.LiesAt path parent stem := by
  obtain ⟨front, hsegments, hwalk⟩ := hlies.walk
  refine ⟨hlies.stem_ne, (h.directory_iff parent).2 hlies.directory, front, hsegments, ?_⟩
  rw [h.start_eq]
  exact h.walk_directory hwalk hlies.directory

theorem LiesAt.slash_not_mem (hlies : fs.LiesAt path parent stem) :
    '/' ∉ (stem ++ ".test").toList := by
  obtain ⟨front, hsegments, -⟩ := hlies.walk
  exact Path.slash_not_mem_of_segments hsegments

/-- A test that can be read lies somewhere. -/
theorem exists_liesAt_of_read (htest : path.isTest = true) {rom : ByteArray}
    (hread : fs.read path = .ok rom) :
    ∃ parent stem, fs.LiesAt path parent stem ∧ path.fault? = none ∧
      (stem ++ ".test").utf8ByteSize ≤ longestName ∧
      fs.root.standing? (parent ++ [stem ++ ".test"]) = some (.file rom) := by
  obtain ⟨front, name, hsegments, hname⟩ := exists_segments_of_read hread
  obtain ⟨stem, hstem, rfl⟩ := (Path.isTest_iff_of_segments hsegments hname).1 htest
  obtain ⟨hfault, hsize, parent, hwalk, hfile⟩ :=
    (read_eq_ok_iff_of_segments hsegments hname).1 hread
  have hstands : (fs.root.standing? (parent ++ [stem ++ ".test"])).isSome = true := by
    rw [hfile]
    rfl
  exact ⟨parent, stem, ⟨hstem, Node.standing?_of_concat hstands, front, hsegments, hwalk⟩,
    hfault, hsize, hfile⟩

theorem ne_append_expected (front : List String) (stem : String) (front' : List String)
    (stem' : String) :
    front ++ [stem ++ ".test"] ≠ front' ++ [stem' ++ ".expected"] := by
  intro heq
  have hlast := congrArg (fun names => names.getLast?.bind fun name => name.toList.getLast?) heq
  simp at hlast

/-- **Tests are read alike.** -/
theorem BaselinesDiffer.read_iff (h : fs.BaselinesDiffer after) (htest : path.isTest = true)
    {rom : ByteArray} :
    after.read path = .ok rom ↔ fs.read path = .ok rom := by
  have hforth : ∀ {fs after : FileSystem}, fs.BaselinesDiffer after → fs.read path = .ok rom →
      after.read path = .ok rom := by
    intro fs after h hread
    obtain ⟨parent, stem, hlies, hfault, hsize, hfile⟩ := exists_liesAt_of_read htest hread
    obtain ⟨front, hsegments, hwalk⟩ := (hlies.of_baselinesDiffer h).walk
    refine (read_eq_ok_iff_of_segments hsegments (Path.isProper_append_test stem)).2
      ⟨hfault, hsize, parent, hwalk, ?_⟩
    rw [h.standing?_eq _ (ne_append_expected parent stem), hfile]
  exact ⟨hforth h.symm, hforth h⟩

theorem LiesAt.locate_eq_ok (hlies : fs.LiesAt path parent stem) {rom : ByteArray}
    (hread : fs.read path = .ok rom) :
    fs.locate path = .ok (parent ++ [stem ++ ".test"]) := by
  obtain ⟨front, hsegments, hwalk⟩ := hlies.walk
  obtain ⟨names, hlocate, -⟩ := read_eq_ok_iff.1 hread
  rwa [eq_of_locate_eq_ok hsegments (Path.isProper_append_test stem) hwalk hlocate] at hlocate

/-! ## Where a baseline lies -/

/-- Tests whose baselines lie in one place lie in one place themselves. -/
theorem append_expected_inj {front front' : List String} {stem stem' : String}
    (heq : front ++ [stem ++ ".expected"] = front' ++ [stem' ++ ".expected"]) :
    front = front' ∧ stem = stem' := by
  obtain ⟨hfront, hname⟩ := List.append_singleton_inj.1 heq
  exact ⟨hfront, (String.append_left_inj _).1 hname⟩

/-- A path that goes up leads to no file. -/
theorem not_read_of_segments_up {front : List String}
    (hsegments : path.segments = front ++ [".."]) (content : ByteArray) :
    fs.read path ≠ .ok content := by
  intro hread
  obtain ⟨front', name, hsegments', hname⟩ := exists_segments_of_read hread
  rw [hsegments] at hsegments'
  obtain ⟨-, rfl⟩ := List.append_singleton_inj.1 hsegments'
  exact hname.2 rfl

/-- A path that goes up leads to a directory or nowhere, and no file can be made there. -/
theorem not_write_of_segments_up {front : List String}
    (hsegments : path.segments = front ++ [".."]) (content : ByteArray) :
    fs.write path content ≠ .ok after := by
  have hlocateNew : fs.locateNew path = .error .notFound := by
    rw [locateNew, hsegments, List.getLast?_concat]
    exact if_pos (Or.inr rfl)
  intro hwrite
  rw [write] at hwrite
  cases hnode : fs.nodeAt path with
  | error error =>
      rw [hnode] at hwrite
      cases error with
      | notFound =>
          rw [hlocateNew] at hwrite
          cases hwrite
      | _ => cases hwrite
  | ok node =>
      obtain ⟨names, hlocate, hfind⟩ := nodeAt_eq_ok_iff.1 hnode
      rw [locate_eq_ok_iff, hsegments, walk_concat_eq_ok_iff] at hlocate
      obtain ⟨-, here, -, henter⟩ := hlocate
      obtain ⟨hhere, hcases⟩ := enter_eq_ok_iff.1 henter
      have hnames : names = here.dropLast := by
        rcases hcases with ⟨hidle, -⟩ | ⟨-, hnames⟩ | ⟨hname, -⟩
        · cases hidle
        · exact hnames
        · exact absurd rfl hname.2
      subst hnames
      obtain ⟨entries, hentries⟩ :=
        Node.standing?_eq_directory_iff.1 (Node.standing?_dropLast hhere)
      rw [hentries] at hfind
      obtain rfl := Option.some.inj hfind
      rw [hnode] at hwrite
      cases hwrite

/-- The segments of a baseline, and the way to the directory that it lies in. -/
theorem LiesAt.baseline (hlies : fs.LiesAt path parent stem) :
    (stem = "." → ∃ front, path.baseline.segments = front ++ [".."]) ∧
      (stem ≠ "." → ∃ front, path.baseline.segments = front ++ [stem ++ ".expected"] ∧
        front.foldlM fs.enter (fs.start path.baseline) = .ok parent) := by
  obtain ⟨front, hsegments, hwalk⟩ := hlies.walk
  constructor
  · rintro rfl
    exact ⟨front, Path.segments_baseline_of_dot hsegments⟩
  · intro hdot
    have hbaseline := Path.segments_baseline hlies.stem_ne hdot hsegments
    refine ⟨front, hbaseline, ?_⟩
    rwa [start, Path.isAbsolute_eq_of_segments hbaseline hsegments]

/-- A baseline holds what the file beside the test holds. -/
theorem LiesAt.read_baseline_iff (hlies : fs.LiesAt path parent stem) {content : ByteArray} :
    fs.read path.baseline = .ok content ↔
      stem ≠ "." ∧ path.baseline.fault? = none ∧
        (stem ++ ".expected").utf8ByteSize ≤ longestName ∧
        fs.root.standing? (parent ++ [stem ++ ".expected"]) = some (.file content) := by
  obtain ⟨hup, hbeside⟩ := hlies.baseline
  by_cases hdot : stem = "."
  · obtain ⟨front, hsegments⟩ := hup hdot
    exact ⟨fun hread => absurd hread (not_read_of_segments_up hsegments _),
      fun h => absurd hdot h.1⟩
  · obtain ⟨front, hsegments, hwalk⟩ := hbeside hdot
    rw [read_eq_ok_iff_of_segments hsegments (Path.isProper_append_expected stem)]
    constructor
    · rintro ⟨hfault, hsize, parent', hwalk', hfile⟩
      obtain rfl : parent' = parent := Except.ok.inj (hwalk'.symm.trans hwalk)
      exact ⟨hdot, hfault, hsize, hfile⟩
    · rintro ⟨-, hfault, hsize, hfile⟩
      exact ⟨hfault, hsize, parent, hwalk, hfile⟩

/-- The text of a baseline is what the file beside the test holds. -/
theorem LiesAt.readText_baseline_iff (hlies : fs.LiesAt path parent stem) {text : String} :
    fs.readText path.baseline = .ok text ↔
      stem ≠ "." ∧ path.baseline.fault? = none ∧
        (stem ++ ".expected").utf8ByteSize ≤ longestName ∧
        fs.root.standing? (parent ++ [stem ++ ".expected"]) = some (.file text.toUTF8) := by
  rw [readText_eq_ok_iff]
  exact hlies.read_baseline_iff

/-- Where the baseline of a test is written. -/
theorem LiesAt.of_write_baseline (hlies : fs.LiesAt path parent stem) {content : ByteArray}
    (hwrite : fs.write path.baseline content = .ok after) :
    stem ≠ "." ∧ path.baseline.fault? = none ∧
      (stem ++ ".expected").utf8ByteSize ≤ longestName ∧
      fs.root.standing? (parent ++ [stem ++ ".expected"]) ≠ some .directory ∧
        after = { fs with
          root := fs.root.putFile (parent ++ [stem ++ ".expected"]) content } := by
  obtain ⟨hup, hbeside⟩ := hlies.baseline
  by_cases hdot : stem = "."
  · obtain ⟨front, hsegments⟩ := hup hdot
    exact absurd hwrite (not_write_of_segments_up hsegments content)
  · obtain ⟨front, hsegments, hwalk⟩ := hbeside hdot
    exact ⟨hdot, (write_eq_ok_iff_of_segments hsegments (Path.isProper_append_expected stem)
      hwalk hlies.directory).1
      hwrite⟩

/-- The baseline of a test can be written unless something about its path or its place forbids
it. -/
theorem LiesAt.exists_write_baseline (hlies : fs.LiesAt path parent stem) (hdot : stem ≠ ".")
    (hfault : path.baseline.fault? = none)
    (hsize : (stem ++ ".expected").utf8ByteSize ≤ longestName)
    (hold : fs.root.standing? (parent ++ [stem ++ ".expected"]) ≠ some .directory)
    (content : ByteArray) :
    ∃ after, fs.write path.baseline content = .ok after := by
  obtain ⟨front, hsegments, hwalk⟩ := hlies.baseline.2 hdot
  exact ⟨_, write_eq_ok_of_segments hsegments (Path.isProper_append_expected stem) hwalk
    hlies.directory hfault hsize hold
    content⟩

/-- What stands where after the baseline of a test has been written. -/
theorem LiesAt.standing?_of_write_baseline (hlies : fs.LiesAt path parent stem)
    {content : ByteArray} (hwrite : fs.write path.baseline content = .ok after)
    (names : List String) :
    after.root.standing? names =
      if names = parent ++ [stem ++ ".expected"] then some (.file content)
      else fs.root.standing? names := by
  obtain ⟨-, -, -, hold, rfl⟩ := hlies.of_write_baseline hwrite
  exact Node.standing?_putFile content hlies.directory hold names

/-- Writing a baseline changes baselines only. -/
theorem LiesAt.baselinesDiffer (hlies : fs.LiesAt path parent stem) {content : ByteArray}
    (hwrite : fs.write path.baseline content = .ok after) : fs.BaselinesDiffer after := by
  have hstanding := hlies.standing?_of_write_baseline hwrite
  obtain ⟨-, -, -, hold, rfl⟩ := hlies.of_write_baseline hwrite
  refine ⟨rfl, fun names => ?_, fun names hnames => ?_⟩
  · rw [hstanding]
    split
    · subst names
      exact ⟨nofun, fun h => absurd h hold⟩
    · rfl
  · rw [hstanding, if_neg (hnames parent stem)]

/-- The text that has been written is the text that is read, also when the same baseline is
written by another path. -/
theorem LiesAt.readText_of_write_baseline (hlies : fs.LiesAt path parent stem) {text : String}
    (hwrite : fs.write path.baseline text.toUTF8 = .ok after) :
    after.readText path.baseline = .ok text := by
  obtain ⟨hdot, hfault, hsize, -⟩ := hlies.of_write_baseline hwrite
  refine ((hlies.of_baselinesDiffer (hlies.baselinesDiffer hwrite)).readText_baseline_iff).2
    ⟨hdot, hfault, hsize, ?_⟩
  rw [hlies.standing?_of_write_baseline hwrite, if_pos rfl]

end LiesAt

end FileSystem

end GoldenRom

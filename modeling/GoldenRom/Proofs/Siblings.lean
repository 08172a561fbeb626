import GoldenRom.Proofs.Rebasing

/-!
# Baselines that stay apart

The baseline of a path lies in the same directory under the same stem, and it never has the name
of a test.  Two tests share a baseline only if they are one test under two spellings, so a run
with rebasing can save what every test puts out without losing anything that another test needs.

This takes a stem from which a file name can be formed again.  A lone dot is none: what is left
of the name `..x` without its extension goes up.  It depends on what is written behind such a
name whether the extension of a baseline is put there after all.

## Main definitions

* `Path.fileStem?`: the file name of a path without its extension.
* `Path.LosesName`: the paths with a file name whose baseline has none.
* `FileSystem.WritesBeside`: nothing has been written but the baseline of one test.

## Main results

* `Path.components_of_fileName?`: what a path with a file name and its baseline mean.
* `Suite.baselines_stay_apart`: baselines tell their tests apart, and saving one test touches no
  other.
* `Suite.baseline_of_dot_goes_up`: where this fails.
-/

namespace GoldenRom

namespace Path

/-! ## Stems -/

theorem stem_ne_empty {name : String} (hname : IsProper name) :
    (stemAndExtension name).1 ≠ "" := by
  obtain hcut | ⟨stem, extension, hcut, -, -⟩ := stemAndExtension_cases name
  · rw [hcut]
    rintro rfl
    cases hname.1
  · rw [hcut]
    exact (eq_of_stemAndExtension hcut).1

theorem isProper_append_up {extension : String} (hne : extension ≠ "")
    (hplain : '.' ∉ extension.toList) : IsProper (".." ++ extension) := by
  cases hlast : extension.toList.getLast? with
  | none => exact absurd (String.toList_inj.1 (List.getLast?_eq_none_iff.1 hlast)) hne
  | some c =>
      refine isProper_of_getLast? (c := c) ?_ (fun hdot =>
        hplain (hdot ▸ List.mem_of_getLast? hlast))
      rw [String.toList_append, List.getLast?_append, hlast]
      rfl

/-- The stem of a proper name is a lone dot if the name starts with two dots and goes on without
one. -/
theorem stem_eq_dot_iff {name : String} (hname : IsProper name) :
    (stemAndExtension name).1 = "." ↔ ∃ extension, extension ≠ "" ∧ '.' ∉ extension.toList ∧
      name = ".." ++ extension := by
  constructor
  · intro hstem
    obtain hcut | ⟨stem, extension, hcut, hplain, rfl⟩ := stemAndExtension_cases name
    · rw [hcut] at hstem
      subst hstem
      cases hname.1
    · rw [hcut] at hstem
      subst hstem
      refine ⟨extension, ?_, hplain, rfl⟩
      rintro rfl
      exact hname.2 rfl
  · rintro ⟨extension, -, hplain, rfl⟩
    have hcut : stemAndExtension ("." ++ "." ++ extension) = (".", some extension) :=
      stemAndExtension_append (by decide) hplain
    exact congrArg Prod.fst hcut

theorem stemAndExtension_append_expected {stem : String} (hstem : stem ≠ "") :
    stemAndExtension (stem ++ ".expected") = (stem, some baselineExtension) := by
  have hname : stemAndExtension (stem ++ "." ++ "expected") = (stem, some "expected") :=
    stemAndExtension_append hstem (by decide)
  rwa [String.append_assoc] at hname

/-- The file name of a path without its extension. -/
def fileStem? (p : Path) : Option String :=
  p.fileName?.map fun name => (stemAndExtension name).1

/-! ## Where a baseline lies -/

/-- The last segment starts with two dots and goes on without one, so it goes up without its
extension. -/
def LosesName (p : Path) : Prop :=
  ∃ front extension, extension ≠ "" ∧ '.' ∉ extension.toList ∧
    p.segments = front ++ [".." ++ extension]

section FilePlace

variable {p : Path} {place : FilePlace}

theorem losesName_iff (hplace : p.filePlace? = some place) :
    p.LosesName ↔ (stemAndExtension place.name).1 = "." ∧ place.behind = [] := by
  obtain ⟨hsegments, hproper, -⟩ := filePlace?_eq_some_iff.1 hplace
  constructor
  · rintro ⟨front, extension, hne, hplain, hlast⟩
    have hup := isProper_append_up hne hplain
    obtain rfl : place = ⟨front, ".." ++ extension, []⟩ :=
      Option.some.inj (hplace.symm.trans (filePlace?_of_segments hlast hup))
    exact ⟨(stem_eq_dot_iff hup).2 ⟨extension, hne, hplain, rfl⟩, rfl⟩
  · rintro ⟨hstem, hbehind⟩
    obtain ⟨extension, hne, hplain, hname⟩ := (stem_eq_dot_iff hproper).1 hstem
    rw [hname, hbehind] at hsegments
    exact ⟨place.front, extension, hne, hplain, hsegments⟩

theorem segments_baseline_of_losesName (hplace : p.filePlace? = some place)
    (hloses : p.LosesName) :
    p.baseline.segments = place.front ++ [".."] := by
  rw [segments_baseline_of_filePlace? hplace, if_pos ((losesName_iff hplace).1 hloses)]

theorem segments_baseline_of_not_losesName (hplace : p.filePlace? = some place)
    (hkeeps : ¬p.LosesName) :
    p.baseline.segments = place.front ++ [(stemAndExtension place.name).1 ++ ".expected"] := by
  rw [segments_baseline_of_filePlace? hplace, if_neg (mt (losesName_iff hplace).2 hkeeps)]

/-- The baseline of a path without a file name is the path itself. -/
theorem baseline_of_filePlace?_eq_none (hplace : p.filePlace? = none) : p.baseline = p := by
  rw [baseline, withExtension, hplace]

theorem isTest_of_filePlace?_eq_none (hplace : p.filePlace? = none) : p.isTest = false := by
  rw [isTest, extension?, fileName?, hplace]
  rfl

theorem filePlace?_of_segments_up {front : List String}
    (hsegments : p.segments = front ++ [".."]) : p.filePlace? = none := by
  have hup : isIdle ".." = false := by decide
  simp [filePlace?, hsegments, hup]

end FilePlace

/-- **A baseline has no other baseline**, unless its stem is a lone dot. -/
theorem baseline_baseline_eq_iff (p : Path) :
    p.baseline.baseline = p.baseline ↔ (p.fileStem? = some "." → p.LosesName) := by
  rw [fileStem?, fileName?, Option.map_map]
  cases hplace : p.filePlace? with
  | none =>
      rw [baseline_of_filePlace?_eq_none hplace, baseline_of_filePlace?_eq_none hplace]
      refine iff_of_true rfl fun hnone => ?_
      cases hnone
  | some place =>
      by_cases hloses : p.LosesName
      · have hup := filePlace?_of_segments_up (segments_baseline_of_losesName hplace hloses)
        exact iff_of_true (baseline_of_filePlace?_eq_none hup) fun _ => hloses
      · have hsegments := segments_baseline_of_not_losesName hplace hloses
        have hbaseline := filePlace?_of_segments hsegments (isProper_append_expected _)
        have hcut := stemAndExtension_append_expected
            (stem_ne_empty (filePlace?_eq_some_iff.1 hplace).2.1)
        have hagain := losesName_iff hbaseline
        rw [hcut] at hagain
        by_cases hdot : (stemAndExtension place.name).1 = "."
        · have htwice := segments_baseline_of_losesName hbaseline (hagain.2 ⟨hdot, rfl⟩)
          refine iff_of_false (fun hsame => ?_) fun h => hloses (h (congrArg some hdot))
          rw [hsame, hsegments] at htwice
          exact (isProper_append_expected _).2 (List.append_singleton_inj.1 htwice).2
        · have htwice := segments_baseline_of_not_losesName hbaseline fun h =>
            hdot (hagain.1 h).1
          rw [hcut] at htwice
          exact iff_of_true (eq_of_segments_eq (htwice.trans hsegments.symm)) fun h =>
            absurd (Option.some.inj h) hdot

/-- No baseline is the path of a test. -/
theorem isTest_baseline (p : Path) : p.baseline.isTest = false := by
  cases hplace : p.filePlace? with
  | none =>
      rw [baseline_of_filePlace?_eq_none hplace]
      exact isTest_of_filePlace?_eq_none hplace
  | some place =>
      by_cases hloses : p.LosesName
      · exact isTest_of_filePlace?_eq_none
          (filePlace?_of_segments_up (segments_baseline_of_losesName hplace hloses))
      · exact isTest_eq_false_of_segments (segments_baseline_of_not_losesName hplace hloses)

/-! ## What a baseline means -/

/-- What the segments in front of a file name mean. -/
def frontComponents (front : List String) : List Component :=
  (if front.head? = some "" then [.root]
    else if front.head? = some "." then [.current] else []) ++
  (front.filter (!isIdle ·)).map component

theorem components_of_segments {p : Path} {front behind : List String} {name : String}
    (hsegments : p.segments = front ++ name :: behind) (hname : isIdle name = false)
    (hidle : ∀ segment ∈ behind, isIdle segment = true) :
    p.components = frontComponents front ++ [component name] := by
  obtain ⟨hempty, hcurrent⟩ : name ≠ "" ∧ name ≠ "." := by simpa [isIdle] using hname
  have habsolute : p.isAbsolute = true ↔ front.head? = some "" := by
    rw [isAbsolute_iff, hsegments]
    cases front <;> simp [hempty]
  have hhead : p.segments.head? = some "." ↔ front.head? = some "." := by
    rw [hsegments]
    cases front <;> simp [hcurrent]
  have hfilter : p.segments.filter (!isIdle ·) = front.filter (!isIdle ·) ++ [name] := by
    have hbehind : behind.filter (!isIdle ·) = [] :=
      List.filter_eq_nil_iff.2 fun segment hmem => by simp [hidle segment hmem]
    rw [hsegments, List.filter_append, List.filter_cons_of_pos (by rw [hname]; rfl), hbehind]
  rw [components, frontComponents, hfilter, List.map_append, ← List.append_assoc]
  simp only [habsolute, hhead]
  rfl

theorem component_of_isProper {name : String} (hname : IsProper name) :
    component name = .normal name :=
  if_neg hname.2

/-- **What a path with a file name means, and what its baseline means.**  They have the same
components but for the last one, and that has the same stem. -/
theorem components_of_fileName? {p : Path} {name : String} (hname : p.fileName? = some name) :
    ∃ parent, p.components = parent ++ [.normal name] ∧
      (p.LosesName → p.baseline.components = parent ++ [.parent] ∧
        (stemAndExtension name).1 = ".") ∧
      (¬p.LosesName →
        p.baseline.components =
            parent ++ [.normal ((stemAndExtension name).1 ++ ".expected")] ∧
          p.baseline.fileStem? = p.fileStem? ∧
          p.baseline.extension? = some baselineExtension) := by
  obtain ⟨place, hplace, rfl⟩ := Option.map_eq_some_iff.1 hname
  obtain ⟨hsegments, hproper, hidle⟩ := filePlace?_eq_some_iff.1 hplace
  refine ⟨frontComponents place.front, ?_, fun hloses => ?_, fun hkeeps => ?_⟩
  · rw [components_of_segments hsegments hproper.1 hidle, component_of_isProper hproper]
  · exact ⟨components_of_segments (segments_baseline_of_losesName hplace hloses)
      (by decide) nofun, ((losesName_iff hplace).1 hloses).1⟩
  · have hbaseline := segments_baseline_of_not_losesName hplace hkeeps
    have hexpected := isProper_append_expected (stemAndExtension place.name).1
    have hcut := stemAndExtension_append_expected (stem_ne_empty hproper)
    refine ⟨?_, ?_, ?_⟩
    · rw [components_of_segments hbaseline hexpected.1 nofun, component_of_isProper hexpected]
    · rw [fileStem?, fileStem?, hname, fileName?_of_segments hbaseline hexpected,
        Option.map_some, Option.map_some, hcut]
    · rw [extension?, fileName?_of_segments hbaseline hexpected, Option.bind_some, hcut]

theorem exists_fileName?_of_isTest {p : Path} (htest : p.isTest = true) :
    ∃ stem, stem ≠ "" ∧ p.fileName? = some (stem ++ ".test") := by
  obtain ⟨front, stem, behind, hstem, hsegments, hidle⟩ := isTest_iff.1 htest
  have hplace : p.filePlace? = some ⟨front, stem ++ ".test", behind⟩ :=
    filePlace?_eq_some_iff.2 ⟨hsegments, isProper_append_test stem, hidle⟩
  exact ⟨stem, hstem, congrArg (Option.map FilePlace.name) hplace⟩

/-- **Tests have one baseline only if they are one.**  Of two spellings of a test, one may lose
its file name and the other may not. -/
theorem components_baseline_eq_iff {p q : Path} (hp : p.isTest = true) (hq : q.isTest = true) :
    p.baseline.components = q.baseline.components ↔
      p.components = q.components ∧ (p.LosesName ↔ q.LosesName) := by
  obtain ⟨stem, hstem, hname⟩ := exists_fileName?_of_isTest hp
  obtain ⟨stem', hstem', hname'⟩ := exists_fileName?_of_isTest hq
  obtain ⟨parent, hcomponents, hloses, hkeeps⟩ := components_of_fileName? hname
  obtain ⟨parent', hcomponents', hloses', hkeeps'⟩ := components_of_fileName? hname'
  rw [stemAndExtension_append_test hstem] at hloses hkeeps
  rw [stemAndExtension_append_test hstem'] at hloses' hkeeps'
  rw [hcomponents, hcomponents', List.append_singleton_inj]
  by_cases hp : p.LosesName
  · obtain ⟨hbaseline, rfl⟩ := hloses hp
    by_cases hq : q.LosesName
    · obtain ⟨hbaseline', rfl⟩ := hloses' hq
      rw [hbaseline, hbaseline', List.append_singleton_inj]
      simp [hp, hq]
    · rw [hbaseline, (hkeeps' hq).1, List.append_singleton_inj]
      simp [hp, hq]
  · by_cases hq : q.LosesName
    · rw [(hkeeps hp).1, (hloses' hq).1, List.append_singleton_inj]
      simp [hp, hq]
    · rw [(hkeeps hp).1, (hkeeps' hq).1, List.append_singleton_inj]
      simp [hp, hq]

end Path

/-! ## Writing beside a test -/

namespace FileSystem

/-- Nothing has been written but the baseline of the test at a path.  Whatever stands elsewhere
has stood there before, every test is read as before, and so is the baseline of every test that
can be read and lies elsewhere. -/
structure WritesBeside (fs : FileSystem) (path : Path) (after : FileSystem) : Prop where
  place : ∃ parent stem, fs.locate path = .ok (parent ++ [stem ++ ".test"]) ∧
    ∀ names, names ≠ parent ++ [stem ++ ".expected"] →
    after.root.standing? names = fs.root.standing? names
  read_iff : ∀ q rom, q.isTest = true → (after.read q = .ok rom ↔ fs.read q = .ok rom)
  read_baseline_iff : ∀ q rom content, q.isTest = true → fs.read q = .ok rom →
    fs.locate q ≠ fs.locate path →
    (after.read q.baseline = .ok content ↔ fs.read q.baseline = .ok content)

variable {fs after : FileSystem} {path : Path}

theorem writesBeside_of_write_baseline (htest : path.isTest = true) {rom content : ByteArray}
    (hread : fs.read path = .ok rom) (hwrite : fs.write path.baseline content = .ok after) :
    fs.WritesBeside path after := by
  obtain ⟨parent, stem, hlies, -⟩ := exists_liesAt_of_read htest hread
  have hdiffer := hlies.baselinesDiffer hwrite
  have hstanding := hlies.standing?_of_write_baseline hwrite
  have hlocate := hlies.locate_eq_ok hread
  refine ⟨⟨parent, stem, hlocate, fun names hnames => ?_⟩, fun q rom hq => hdiffer.read_iff hq,
    fun q rom content hq hother helsewhere => ?_⟩
  · rw [hstanding, if_neg hnames]
  · obtain ⟨parent', stem', hlies', -⟩ := exists_liesAt_of_read hq hother
    have hplaces : parent' ++ [stem' ++ ".expected"] ≠ parent ++ [stem ++ ".expected"] := by
      intro hsame
      obtain ⟨rfl, rfl⟩ := append_expected_inj hsame
      exact helsewhere ((hlies'.locate_eq_ok hother).trans hlocate.symm)
    rw [hlies'.read_baseline_iff, (hlies'.of_baselinesDiffer hdiffer).read_baseline_iff,
      hstanding, if_neg hplaces]

end FileSystem

namespace Suite

variable {fs : FileSystem} {searchPaths : List Path} {seed : UInt64}

/-- Every save of a run with rebasing writes beside the test that it saves. -/
theorem writesBeside_of_rebased {before after : List FileTest} {executed : FileTest}
    (hrebased : (run ⟨searchPaths, seed, true⟩ fs).rebased = before ++ executed :: after) :
    ∃ reached saved, before.foldlM FileTest.save fs = .ok reached ∧
      FileTest.save reached executed = .ok saved ∧
      after.foldlM FileTest.save saved = .ok (run ⟨searchPaths, seed, true⟩ fs).world ∧
        reached.WritesBeside executed.path saved := by
  have hsaves := foldlM_save_rebased fs searchPaths seed
  rw [hrebased, List.foldlM_append, FileSystem.bind_eq_ok_iff] at hsaves
  obtain ⟨reached, hreached, hrest⟩ := hsaves
  rw [List.foldlM_cons, FileSystem.bind_eq_ok_iff] at hrest
  obtain ⟨saved, hsave, hafter⟩ := hrest
  obtain ⟨reached', test, hreached', -, hfound, hload, -⟩ := exists_of_rebased hrebased
  obtain rfl : reached' = reached := Except.ok.inj (hreached'.symm.trans hreached)
  exact ⟨reached', saved, hreached, hsave, hafter, FileSystem.writesBeside_of_write_baseline
    (FileSystem.isTest_of_mem_findTests hfound) (FileTest.of_load_eq_ok hload).2.1
      (FileTest.write_of_save hsave)⟩

/-- **Baselines stay apart.**  The baseline of a baseline is the baseline itself, unless its
stem is a lone dot.  No search finds a baseline as a test.  The baseline of a path with a file
name has the same components in front, the same stem and the extension of a baseline, unless the
path loses its file name.  Two tests have the components of their baselines in common if they
have their own components in common, and of two spellings of one test, both or none have to lose
the file name.

So when a run with rebasing saves a test, it writes beside this test and nowhere else: it
changes no test and no baseline of any other. -/
theorem baselines_stay_apart (p q : Path) (fs : FileSystem) (searchPaths : List Path)
    (seed : UInt64) :
    (p.baseline.baseline = p.baseline ↔ (p.fileStem? = some "." → p.LosesName)) ∧
      (p.baseline.isTest = false ∧ p.baseline ∉ fs.findTests searchPaths) ∧
      (∀ name, p.fileName? = some name →
        ∃ parent, p.components = parent ++ [.normal name] ∧
          (p.LosesName → p.baseline.components = parent ++ [.parent] ∧
            (stemAndExtension name).1 = ".") ∧
          (¬p.LosesName →
            p.baseline.components =
                parent ++ [.normal ((stemAndExtension name).1 ++ ".expected")] ∧
              p.baseline.fileStem? = p.fileStem? ∧
              p.baseline.extension? = some baselineExtension)) ∧
      (p.isTest = true → q.isTest = true →
        (p.baseline.components = q.baseline.components ↔
          p.components = q.components ∧ (p.LosesName ↔ q.LosesName))) ∧
      ∀ before executed after,
        (run ⟨searchPaths, seed, true⟩ fs).rebased = before ++ executed :: after →
        ∃ reached saved, before.foldlM FileTest.save fs = .ok reached ∧
          FileTest.save reached executed = .ok saved ∧
          after.foldlM FileTest.save saved = .ok (run ⟨searchPaths, seed, true⟩ fs).world ∧
            reached.WritesBeside executed.path saved := by
  refine ⟨p.baseline_baseline_eq_iff, ⟨p.isTest_baseline, fun hfound => ?_⟩,
    fun name => Path.components_of_fileName?, Path.components_baseline_eq_iff,
    fun before executed after => writesBeside_of_rebased⟩
  have htest := FileSystem.isTest_of_mem_findTests hfound
  rw [p.isTest_baseline] at htest
  cases htest

/-- A name with several dots keeps its stem, two spellings of a test have different baselines,
and the one test that is found under them is saved beside itself. -/
theorem baselines_stay_apart_in_done_directory :
    (∃ parent, Path.components ⟨"roms//.a.b.test/."⟩ = parent ++ [.normal ".a.b.test"] ∧
      (Path.baseline ⟨"roms//.a.b.test/."⟩).components = parent ++ [.normal ".a.b.expected"]) ∧
    (Path.baseline ⟨"./done.test"⟩).components ≠ (Path.baseline ⟨"done.test"⟩).components ∧
    ∃ executed, (run ⟨doneTwice, 1, true⟩ (doneDirectory "")).rebased = [executed] ∧
      (doneDirectory "").WritesBeside executed.path
        (run ⟨doneTwice, 1, true⟩ (doneDirectory "")).world := by
  obtain ⟨-, -, hname, -, -⟩ :=
    baselines_stay_apart ⟨"roms//.a.b.test/."⟩ ⟨"done.test"⟩ (doneDirectory "") doneTwice 1
  obtain ⟨-, -, -, hspellings, hruns⟩ :=
    baselines_stay_apart ⟨"./done.test"⟩ ⟨"done.test"⟩ (doneDirectory "") doneTwice 1
  refine ⟨?_, fun hsame => ?_, ?_⟩
  · obtain ⟨parent, hcomponents, hloses, hkeeps⟩ := hname ".a.b.test" (by decide)
    have hkeepsName : ¬Path.LosesName ⟨"roms//.a.b.test/."⟩ :=
      fun h => absurd (hloses h).2 (by decide)
    exact ⟨parent, hcomponents, (hkeeps hkeepsName).1⟩
  · obtain ⟨hcomponents, -⟩ := (hspellings (by decide) (by decide)).1 hsame
    exact absurd hcomponents (by decide)
  · have hlength : 1 = (run ⟨doneTwice, 1, true⟩ (doneDirectory "")).rebased.length :=
      (Runner.rebased_eq_add_length result_run_doneTwice).trans (Nat.zero_add _)
    obtain ⟨executed, hrebased⟩ := List.length_eq_one_iff.1 hlength.symm
    obtain ⟨reached, saved, hreached, -, hsaved, hbeside⟩ := hruns [] executed [] hrebased
    obtain rfl := Except.ok.inj hreached
    obtain rfl := Except.ok.inj hsaved
    exact ⟨executed, hrebased, hbeside⟩

/-- The path `..test` has a file name and the extension of a test.  Its baseline is `..`, which
has neither.  With a slash behind the name the path means the same, but its baseline is
`..expected`, and the baseline of that is `..` again. -/
theorem baseline_of_dot_goes_up :
    Path.isTest ⟨"..test"⟩ = true ∧ Path.fileName? ⟨"..test"⟩ = some "..test" ∧
      Path.baseline ⟨"..test"⟩ = ⟨".."⟩ ∧
      Path.fileName? ⟨".."⟩ = none ∧ Path.extension? ⟨".."⟩ = none ∧
      Path.isTest ⟨"..test/"⟩ = true ∧
      Path.components ⟨"..test/"⟩ = Path.components ⟨"..test"⟩ ∧
      Path.baseline ⟨"..test/"⟩ = ⟨"..expected"⟩ ∧
      Path.components ⟨"..expected"⟩ ≠ Path.components ⟨".."⟩ ∧
      Path.baseline ⟨"..expected"⟩ = ⟨".."⟩ := by
  decide

end Suite

end GoldenRom

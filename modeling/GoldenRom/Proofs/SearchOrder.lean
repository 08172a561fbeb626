import GoldenRom.Proofs.Exchanges
import GoldenRom.Proofs.ExitCodes
import GoldenRom.Proofs.Queues

/-!
# Searching in any order

A suite finds the tests below its search paths, each as often as a search path leads to it, and
takes them in the order of their components.  Neither the order in which directories list their
entries nor that in which the search paths are given has an influence on what a run comes to,
although a test that is found under two spellings can only be saved once.

A directory is looked into by joined paths.  One whose path has become too long is not known for
a directory any more, and it is a test if it has the name of one.

## Main results

* `Suite.search_complete_in_any_order`: what is found, in which order, and what a run over it
  comes to.
* `Suite.finds_directory_under_long_path`: a directory that is found as a test.
-/

namespace GoldenRom

namespace Suite

open scoped Classical in
/-- **A search is complete, and its order does not matter.**  A path stands in the queue once
for each search path that leads to it, and the queue is sorted by components.  Search paths lead
to what is no directory and has the name of a test; an entry of a directory counts as a
directory if it is one, unless its joined path is at fault.  Let directories list their entries
in another order: the queue is the same.  Let the search paths be given in another order as
well: the components in the queue are the same.  And if a session over the one queue ends
without an error, then so does a session over the other, with the same counts and the same
files. -/
theorem search_complete_in_any_order {fs : FileSystem} (hfs : fs.WellFormed)
    (searchPaths : List Path) :
    (∀ q, (fs.findTests searchPaths).count q = searchPaths.countP (fs.LeadsTo · q)) ∧
      (∀ p entries name node, fs.nodeAt p = .ok (.directory entries) → (name, node) ∈ entries →
        (fs.IsDirectory (p.join name) ↔
          node.standing = .directory ∧ (p.join name).fault? = none)) ∧
      (fs.findTests searchPaths).Pairwise (fun p q =>
        (compare p.components q.components).isLE) ∧
      ∀ relisted : FileSystem, fs.root.Relisted relisted.root → relisted.working = fs.working →
        relisted.findTests searchPaths = fs.findTests searchPaths ∧
          ∀ permuted, searchPaths.Perm permuted →
            (relisted.findTests permuted).map Path.components =
                (fs.findTests searchPaths).map Path.components ∧
              ∀ (seed : UInt64) (runner : Runner) (summary : Summary),
                (Runner.run (suiteHost seed) runner fs (fs.findTests searchPaths)).result =
                    .ok summary →
                  (Runner.run (suiteHost seed) runner relisted
                      (relisted.findTests permuted)).result = .ok summary ∧
                    (Runner.run (suiteHost seed) runner fs
                        (fs.findTests searchPaths)).world.Alike
                      (Runner.run (suiteHost seed) runner relisted
                        (relisted.findTests permuted)).world := by
  refine ⟨fun q => FileSystem.count_findTests hfs searchPaths q,
    fun p entries name node hp hentry => FileSystem.isDirectory_join_iff hfs hp hentry,
    FileSystem.pairwise_findTests fs searchPaths, ?_⟩
  rintro ⟨root, _⟩ hroot rfl
  obtain ⟨hrelisted, halike⟩ := FileSystem.alike_of_relisted hroot hfs
  refine ⟨halike.findTests_eq hfs hrelisted searchPaths, fun permuted hpaths =>
    ⟨halike.components_findTests_eq hfs hrelisted hpaths,
      fun seed runner summary hresult => ?_⟩⟩
  exact Runner.result_of_perm (suiteHost_interchanges seed runner.rebase)
    (halike.findTests_perm_of_perm hfs hrelisted hpaths)
      (fun path hmem => FileSystem.isTest_of_mem_findTests hmem) halike
    hresult

/-- The same directory as `doneDirectory`, listed the other way round. -/
def doneDirectoryReversed (expected : String) : FileSystem :=
  ⟨.directory [("done.expected", .file expected.toUTF8), ("done.test", .file Machine.doneRom)],
    []⟩

theorem relisted_doneDirectoryReversed (expected : String) :
    (doneDirectory expected).root.Relisted (doneDirectoryReversed expected).root :=
  .directory (List.Perm.swap _ _ _)

/-- One test under two spellings is saved once and passes once, whichever spelling comes
first. -/
theorem search_complete_in_any_order_for_two_spellings :
    (Runner.run (suiteHost 1) { rebase := true } (doneDirectoryReversed "")
      ((doneDirectoryReversed "").findTests doneTwice.reverse)).result = .ok ⟨1, 0, 1⟩ ∧
      ((doneDirectoryReversed "").findTests doneTwice.reverse).map Path.components =
        doneTwice.map Path.components := by
  obtain ⟨-, -, -, horder⟩ :=
    search_complete_in_any_order (wellFormed_doneDirectory "") doneTwice
  obtain ⟨-, hpermuted⟩ :=
    horder (doneDirectoryReversed "") (relisted_doneDirectoryReversed "") rfl
  obtain ⟨hcomponents, hruns⟩ := hpermuted _ doneTwice.reverse_perm.symm
  rw [findTests_doneDirectory] at hcomponents
  exact ⟨(hruns 1 { rebase := true } _ result_run_doneTwice).1, hcomponents⟩

/-! ## A directory that is not looked into -/

/-- A path of many dots, which leads to the working directory.  Its text has 4093 bytes. -/
def windingPath : Path :=
  .ofSegments (List.replicate 2047 ".")

theorem segments_windingPath : windingPath.segments = List.replicate 2047 "." := by
  refine Path.segments_ofSegments nofun fun segment hmem => ?_
  rw [List.eq_of_mem_replicate hmem]
  decide

/-- A text of dots with slashes between them. -/
theorem text_dots (n : Nat) :
    (Path.ofSegments (List.replicate (n + 1) ".")).text.utf8ByteSize = 2 * n + 1 ∧
      '\x00' ∉ (Path.ofSegments (List.replicate (n + 1) ".")).text.toList := by
  induction n with
  | zero => decide
  | succ n ih =>
      have htext : (Path.ofSegments (List.replicate (n + 2) ".")).text =
          "." ++ "/" ++ (Path.ofSegments (List.replicate (n + 1) ".")).text :=
            String.intercalate_cons_cons
      have hdot : ("." ++ "/").utf8ByteSize = 2 := by decide
      rw [htext, String.utf8ByteSize_append, ih.1, hdot]
      refine ⟨by omega, ?_⟩
      rw [String.toList_append, List.mem_append, not_or]
      exact ⟨by decide, ih.2⟩

theorem fault?_windingPath : windingPath.fault? = none := by
  obtain ⟨hsize, hnul⟩ : windingPath.text.utf8ByteSize = 4093 ∧
      '\x00' ∉ windingPath.text.toList := text_dots 2046
  refine (Path.fault?_eq_none_iff windingPath).2 ⟨hnul, fun hempty => ?_, ?_⟩
  · have hzero : windingPath.text.utf8ByteSize = 0 := by
      rw [hempty]
      rfl
    rw [hsize] at hzero
    cases hzero
  · rw [hsize]
    decide

/-- Going on by idle segments leads nowhere else. -/
theorem walk_dots {fs : FileSystem} {here : List String}
    (hhere : fs.root.standing? here = some .directory) (n : Nat) :
    (List.replicate n ".").foldlM fs.enter here = .ok here := by
  induction n with
  | zero => rfl
  | succ n ih =>
      have henter : fs.enter here "." = .ok here :=
        FileSystem.enter_eq_ok_iff.2 ⟨hhere, Or.inl ⟨rfl, rfl⟩⟩
      rw [List.replicate_succ, List.foldlM_cons, henter]
      exact ih

/-- A working directory with nothing in it but an empty directory that has the name of a
test. -/
def testDirectory : FileSystem :=
  ⟨.directory [("x.test", .directory [])], []⟩

theorem wellFormed_testDirectory : testDirectory.WellFormed := by
  refine FileSystem.wellFormed_directory_iff.2 ⟨show ["x.test"].Nodup by decide,
    show ∀ name ∈ ["x.test"], FileSystem.IsEntryName name by decide,
    fun name node hlookup => ?_⟩
  obtain ⟨-, rfl⟩ :=
    Prod.mk.inj (List.mem_singleton.1 (FileSystem.mem_of_lookup_eq_some hlookup))
  exact FileSystem.wellFormed_directory_iff.2 ⟨List.nodup_nil, nofun, nofun⟩

theorem nodeAt_windingPath : testDirectory.nodeAt windingPath = .ok testDirectory.root := by
  refine FileSystem.nodeAt_eq_ok_iff.2 ⟨[],
    FileSystem.locate_eq_ok_iff.2 ⟨fault?_windingPath, ?_⟩, Node.find?_nil _⟩
  have hstart : testDirectory.start windingPath = [] := by
    rw [FileSystem.start]
    split <;> rfl
  rw [segments_windingPath, hstart]
  exact walk_dots rfl 2047

/-- A joined path has more bytes than the path and the name together have. -/
theorem utf8ByteSize_join (p : Path) (name : String) :
    p.text.utf8ByteSize + name.utf8ByteSize ≤ (p.join name).text.utf8ByteSize := by
  rw [Path.join]
  split
  · exact Nat.le_of_eq String.utf8ByteSize_append.symm
  · exact Nat.le_of_eq String.utf8ByteSize_append.symm
  · show _ ≤ (p.text ++ "/" ++ name).utf8ByteSize
    rw [String.utf8ByteSize_append, String.utf8ByteSize_append]
    omega

/-- There is no file in the directory, and yet a test is found: the directory in it, whose
joined path is too long. -/
theorem finds_directory_under_long_path :
    testDirectory.WellFormed ∧
      testDirectory.nodeAt windingPath = .ok (.directory [("x.test", .directory [])]) ∧
      testDirectory.root.files [] = [] ∧
      testDirectory.findTests [windingPath] = [windingPath.join "x.test"] := by
  have hfault : (windingPath.join "x.test").fault? ≠ none := by
    intro hnone
    have hlong := utf8ByteSize_join windingPath "x.test"
    have hshort := ((Path.fault?_eq_none_iff _).1 hnone).2.2
    have hname : "x.test".utf8ByteSize = 6 := by decide
    have hdots : windingPath.text.utf8ByteSize = 4093 := (text_dots 2046).1
    rw [hdots, hname] at hlong
    rw [longestPath] at hshort
    omega
  have htest : (windingPath.join "x.test").isTest = true := by
    obtain ⟨front, hsegments, -⟩ :=
      windingPath.exists_segments_join (by decide : '/' ∉ "x.test".toList)
    exact (Path.isTest_iff_of_segments hsegments (by decide)).2 ⟨"x", by decide, by decide⟩
  have htests : testDirectory.testsAt windingPath = [windingPath.join "x.test"] := by
    rw [FileSystem.testsAt_of_nodeAt nodeAt_windingPath, testDirectory, Node.tests,
      fault?_windingPath, Option.isNone_none, if_pos rfl, Node.testsAmong_eq,
      List.flatMap_singleton, Node.tests, if_neg, if_pos htest]
    rwa [Option.isNone_iff_eq_none]
  refine ⟨wellFormed_testDirectory, nodeAt_windingPath, ?_, ?_⟩
  · simp [testDirectory, Node.files, Node.filesAmong]
  · rw [FileSystem.findTests, List.flatMap_singleton, htests, List.mergeSort_singleton]

end Suite

end GoldenRom

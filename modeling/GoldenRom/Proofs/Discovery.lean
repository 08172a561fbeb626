import GoldenRom.Proofs.Baselines

/-!
# Finding tests

The queue of a suite holds a path for every way to come from a search path, entry by entry, to
something that is no directory and has the name of a test.  Writing a baseline does not change
the queue, because neither the file that was there before nor the one that is there afterwards
has the name of a test.

## Main definitions

* `FileSystem.Below`: the paths that are reached from a path through the entries of directories.
* `FileSystem.WellFormed`: names of entries are names, and each leads to one entry.

## Main results

* `FileSystem.mem_findTests_iff`: which paths the queue holds.
* `FileSystem.findTests_of_write_baseline`: what is found after a baseline has been written.
-/

namespace GoldenRom

/-! ## Writing baselines -/

namespace Node

/-- What holds of files, and of a directory once it holds of all its entries, holds of every
node. -/
theorem induction {motive : Node → Prop} (file : ∀ content, motive (file content))
    (directory : ∀ entries, (∀ entry ∈ entries, motive entry.2) → motive (directory entries)) :
    ∀ node, motive node
  | .file content => file content
  | .directory entries => directory entries fun entry _ => induction file directory entry.2
termination_by node => sizeOf node
decreasing_by
  rename_i hmem
  have hsize := List.sizeOf_lt_of_mem hmem
  obtain ⟨name, node⟩ := entry
  simp at hsize ⊢
  omega

theorem testsAmong_eq (p : Path) (entries : List (String × Node)) :
    testsAmong p entries = entries.flatMap fun entry => entry.2.tests (p.join entry.1) := by
  induction entries with
  | nil => simp [testsAmong]
  | cons entry rest ih => rw [testsAmong, ih, List.flatMap_cons]

/-- An entry that has the same tests as the one before it, or none if there was none, may take
its place. -/
theorem testsAmong_replaceEntry {p : Path} {name : String} {node : Node}
    {entries : List (String × Node)}
    (htests : node.tests (p.join name) =
      ((entries.lookup name).map (·.tests (p.join name))).getD []) :
    testsAmong p (replaceEntry name node entries) = testsAmong p entries := by
  induction entries with
  | nil => simpa [replaceEntry, testsAmong] using htests
  | cons entry rest ih =>
      obtain ⟨other, old⟩ := entry
      rw [replaceEntry]
      split
      · subst other
        rw [List.lookup_cons_self] at htests
        rw [testsAmong, testsAmong]
        exact congrArg (· ++ testsAmong p rest) htests
      · rename_i hother
        rw [List.lookup_cons, beq_eq_false_iff_ne.2 (Ne.symm hother)] at htests
        rw [testsAmong, testsAmong, ih htests]

/-- Only the tests of the one entry through which a way leads can change with what it leads
to. -/
theorem tests_alter_cons {change : Option Node → Node} {p : Path}
    {entries : List (String × Node)} {first : String} {rest : List String}
    (htests : (alter change (entries.lookup first) rest).tests (p.join first) =
      ((entries.lookup first).map (·.tests (p.join first))).getD []) :
    (alter change (some (directory entries)) (first :: rest)).tests p =
      (directory entries).tests p := by
  rw [alter, tests, tests]
  split
  · exact testsAmong_replaceEntry htests
  · rfl

/-- A file whose name is not that of a test is put into a directory: the tests below are the
same. -/
theorem tests_alter {node : Node} {parent : List String} {name : String} (content : ByteArray)
    (p : Path) (hname : ∀ q : Path, (q.join name).isTest = false)
    (hparent : node.standing? parent = some .directory)
    (hold : node.standing? (parent ++ [name]) ≠ some .directory) :
    (alter (fun _ => file content) (some node) (parent ++ [name])).tests p = node.tests p := by
  induction parent generalizing node p with
  | nil =>
      cases node with
      | file old => simp [standing] at hparent
      | directory found =>
          refine tests_alter_cons ?_
          rw [alter, tests, hname, if_neg Bool.false_ne_true]
          rw [List.nil_append, standing?_cons, entries] at hold
          cases hlookup : found.lookup name with
          | none => rfl
          | some old =>
              cases old with
              | file _ => simp [tests, hname]
              | directory _ => simp [hlookup, standing] at hold
  | cons first parent ih =>
      cases node with
      | file old => simp [standing?_cons, entries] at hparent
      | directory found =>
          rw [List.cons_append, standing?_cons, entries] at hold
          rw [standing?_cons, entries] at hparent
          refine tests_alter_cons ?_
          cases hlookup : found.lookup first with
          | none => simp [hlookup] at hparent
          | some next =>
              rw [hlookup] at hparent hold
              exact ih (p.join first) hparent hold

end Node

namespace FileSystem

variable {fs after : FileSystem}

theorem testsAt_of_nodeAt {p : Path} {node : Node} (hnode : fs.nodeAt p = .ok node) :
    fs.testsAt p = node.tests p := by
  rw [testsAt, hnode]

/-- A path that leads to no directory stands for itself if it has the name of a test. -/
theorem testsAt_of_not_directory {p : Path}
    (hnode : ∀ entries, fs.nodeAt p ≠ .ok (.directory entries)) :
    fs.testsAt p = if p.isTest then [p] else [] := by
  rw [testsAt]
  cases hfound : fs.nodeAt p with
  | error error => rfl
  | ok node =>
      cases node with
      | file content => simp [Node.tests]
      | directory entries => exact absurd hfound (hnode entries)

/-- A path that leads to a directory leads there in both. -/
theorem BaselinesDiffer.locate_directory (h : fs.BaselinesDiffer after) {p : Path}
    {names : List String} (hlocate : fs.locate p = .ok names)
    (hnames : fs.root.standing? names = some .directory) : after.locate p = .ok names := by
  obtain ⟨hfault, hwalk⟩ := locate_eq_ok_iff.1 hlocate
  refine locate_eq_ok_iff.2 ⟨hfault, ?_⟩
  rw [h.start_eq]
  exact h.walk_directory hwalk hnames

theorem BaselinesDiffer.exists_nodeAt_directory (h : fs.BaselinesDiffer after) {p : Path}
    {entries : List (String × Node)} (hnode : fs.nodeAt p = .ok (.directory entries)) :
    ∃ entries', after.nodeAt p = .ok (.directory entries') := by
  obtain ⟨names, hlocate, hfind⟩ := nodeAt_eq_ok_iff.1 hnode
  have hstands : fs.root.standing? names = some .directory :=
    Node.standing?_eq_directory_iff.2 ⟨entries, hfind⟩
  obtain ⟨entries', hfind'⟩ :=
    Node.standing?_eq_directory_iff.1 ((h.directory_iff names).2 hstands)
  exact ⟨entries', nodeAt_eq_ok_iff.2 ⟨names, h.locate_directory hlocate hstands, hfind'⟩⟩

/-- **Writing a baseline does not change what a search path stands for.** -/
theorem testsAt_of_write_baseline {path : Path} {parent : List String} {stem : String}
    (hlies : fs.LiesAt path parent stem) {content : ByteArray}
    (hwrite : fs.write path.baseline content = .ok after) (p : Path) :
    after.testsAt p = fs.testsAt p := by
  have hdiffer := hlies.baselinesDiffer hwrite
  by_cases hdirectory : ∃ entries, fs.nodeAt p = .ok (.directory entries)
  · obtain ⟨entries, hnode⟩ := hdirectory
    obtain ⟨names, hlocate, hfind⟩ := nodeAt_eq_ok_iff.1 hnode
    have hstands : fs.root.standing? names = some .directory :=
      Node.standing?_eq_directory_iff.2 ⟨entries, hfind⟩
    have hlocate' := hdiffer.locate_directory hlocate hstands
    obtain ⟨-, -, -, hold, rfl⟩ := hlies.of_write_baseline hwrite
    rw [testsAt_of_nodeAt hnode]
    by_cases hprefix : names <+: parent ++ [stem ++ ".expected"]
    · -- The directory lies on the way to the baseline, so its node has changed, but not the
      -- tests below it.
      have hfront : names <+: parent := by
        refine (List.prefix_concat_iff.1 hprefix).resolve_left ?_
        rintro rfl
        exact hold hstands
      obtain ⟨middle, rfl⟩ := hfront
      have hparent := hlies.directory
      rw [Node.standing?_append, hfind, Option.bind_some] at hparent
      rw [List.append_assoc, Node.standing?_append, hfind, Option.bind_some] at hold
      have hfind' :
          (fs.root.putFile (names ++ middle ++ [stem ++ ".expected"]) content).find? names =
            some (Node.alter (fun _ => .file content) (some (.directory entries))
              (middle ++ [stem ++ ".expected"])) := by
        rw [Node.putFile, List.append_assoc, Node.find?_alter_append, Option.bind_some, hfind]
      rw [testsAt_of_nodeAt (nodeAt_eq_ok_iff.2 ⟨names, hlocate', hfind'⟩)]
      exact Node.tests_alter content p
        (fun q => Path.isTest_join_expected q hlies.slash_not_mem) hparent hold
    · have hfind' :=
        (Node.find?_putFile_of_not_prefix content hlies.directory hold hprefix).trans hfind
      exact testsAt_of_nodeAt (nodeAt_eq_ok_iff.2 ⟨names, hlocate', hfind'⟩)
  · rw [not_exists] at hdirectory
    rw [testsAt_of_not_directory hdirectory]
    refine testsAt_of_not_directory fun entries hnode => ?_
    obtain ⟨entries', hnode'⟩ := hdiffer.symm.exists_nodeAt_directory hnode
    exact hdirectory entries' hnode'

/-- **Writing a baseline does not change the queue.** -/
theorem findTests_of_write_baseline {path : Path} {parent : List String} {stem : String}
    (hlies : fs.LiesAt path parent stem) {content : ByteArray}
    (hwrite : fs.write path.baseline content = .ok after) (searchPaths : List Path) :
    after.findTests searchPaths = fs.findTests searchPaths := by
  have htests : after.testsAt = fs.testsAt := funext (testsAt_of_write_baseline hlies hwrite)
  rw [findTests, findTests, htests]

/-! ## Members of the queue -/

/-- All members of the queue have the name of a test. -/
theorem isTest_of_mem_findTests {searchPaths : List Path} {q : Path}
    (hq : q ∈ fs.findTests searchPaths) : q.isTest = true := by
  have hself : ∀ p : Path, (q ∈ if p.isTest then [p] else []) → q.isTest = true := by
    intro p hmem
    split at hmem
    · rwa [List.mem_singleton.1 hmem]
    · cases hmem
  have htests : ∀ (node : Node) (p : Path), q ∈ node.tests p → q.isTest = true := by
    intro node
    induction node using Node.induction with
    | file content => exact hself
    | directory entries ih =>
        intro p hmem
        rw [Node.tests] at hmem
        split at hmem
        · rw [Node.testsAmong_eq] at hmem
          obtain ⟨entry, hentry, hbelow⟩ := List.mem_flatMap.1 hmem
          exact ih entry hentry _ hbelow
        · exact hself p hmem
  rw [findTests, List.mem_mergeSort, List.mem_flatMap] at hq
  obtain ⟨p, -, hmem⟩ := hq
  rw [testsAt] at hmem
  split at hmem
  · exact htests _ p hmem
  · exact hself p hmem

/-- A name that a directory can have for an entry. -/
structure IsEntryName (name : String) : Prop where
  proper : Path.IsProper name
  slash_not_mem : '/' ∉ name.toList
  size_le : name.utf8ByteSize ≤ longestName

instance (name : String) : Decidable (IsEntryName name) :=
  decidable_of_iff (Path.IsProper name ∧ '/' ∉ name.toList ∧ name.utf8ByteSize ≤ longestName)
    ⟨fun h => ⟨h.1, h.2.1, h.2.2⟩, fun h => ⟨h.proper, h.slash_not_mem, h.size_le⟩⟩

/-- In every directory the names are names of entries, and no name occurs twice. -/
def WellFormed (fs : FileSystem) : Prop :=
  ∀ names entries, fs.root.find? names = some (.directory entries) →
    (entries.map Prod.fst).Nodup ∧ ∀ entry ∈ entries, IsEntryName entry.1

theorem mem_of_lookup_eq_some {entries : List (String × Node)} {name : String} {node : Node}
    (hlookup : entries.lookup name = some node) : (name, node) ∈ entries := by
  obtain ⟨before, after, hsplit, -⟩ := List.lookup_eq_some_iff.1 hlookup
  simp [hsplit]

/-- What lies below a place of a well-formed tree is well-formed. -/
theorem WellFormed.of_find? (hfs : fs.WellFormed) {names : List String} {node : Node}
    (hfind : fs.root.find? names = some node) (working : List String) :
    WellFormed ⟨node, working⟩ := by
  intro rest entries hrest
  refine hfs (names ++ rest) entries ?_
  rw [Node.find?_append, hfind]
  exact hrest

theorem wellFormed_file (content : ByteArray) (working : List String) :
    WellFormed ⟨.file content, working⟩ := by
  intro names entries hfind
  cases names with
  | nil => cases hfind
  | cons name rest => cases hfind

/-- A directory is well-formed if its names are different names of entries and what they lead to
is well-formed. -/
theorem wellFormed_directory_iff {entries : List (String × Node)} {working : List String} :
    WellFormed ⟨.directory entries, working⟩ ↔
      (entries.map Prod.fst).Nodup ∧ (∀ name ∈ entries.map Prod.fst, IsEntryName name) ∧
        ∀ name node, entries.lookup name = some node → WellFormed ⟨node, working⟩ := by
  constructor
  · intro hdirectory
    obtain ⟨hdistinct, hnames⟩ := hdirectory [] entries rfl
    refine ⟨hdistinct, fun name hname => ?_, fun name node hlookup => ?_⟩
    · obtain ⟨entry, hentry, rfl⟩ := List.mem_map.1 hname
      exact hnames entry hentry
    · have hfind : (Node.directory entries).find? [name] = some node := by
        rw [← List.nil_append [name], Node.find?_concat, Node.find?_nil]
        exact hlookup
      exact hdirectory.of_find? hfind working
  · rintro ⟨hdistinct, hnames, hbelow⟩ names found hfind
    cases names with
    | nil =>
        rw [Node.find?_nil] at hfind
        obtain rfl := Node.directory.inj (Option.some.inj hfind)
        exact ⟨hdistinct, fun entry hentry => hnames entry.1 (List.mem_map_of_mem hentry)⟩
    | cons name rest =>
        rw [Node.find?, Option.bind_eq_some_iff] at hfind
        obtain ⟨node, hlookup, hfind⟩ := hfind
        exact hbelow name node hlookup rest found hfind

/-- A directory that holds nothing but files is well-formed if their names differ and are names
of entries. -/
theorem wellFormed_of_files (files : List (String × ByteArray)) (working : List String)
    (hdistinct : (files.map Prod.fst).Nodup)
    (hnames : ∀ name ∈ files.map Prod.fst, IsEntryName name) :
    WellFormed ⟨.directory (files.map fun entry => (entry.1, .file entry.2)), working⟩ := by
  have hsame : (files.map fun entry => (entry.1, Node.file entry.2)).map Prod.fst =
      files.map Prod.fst := by
    rw [List.map_map]
    rfl
  refine wellFormed_directory_iff.2 ⟨hsame ▸ hdistinct, hsame ▸ hnames,
    fun name node hlookup => ?_⟩
  obtain ⟨file, -, hfile⟩ := List.mem_map.1 (mem_of_lookup_eq_some hlookup)
  obtain ⟨-, rfl⟩ := Prod.mk.inj hfile
  exact wellFormed_file file.2 working

/-- Whether a path leads to a directory. -/
def IsDirectory (fs : FileSystem) (p : Path) : Prop :=
  ∃ entries, fs.nodeAt p = .ok (.directory entries)

/-- The paths at and below a path: from a path that leads to a directory one comes to the joined
paths of its entries. -/
inductive Below (fs : FileSystem) : Path → Path → Prop
  | self (p : Path) : Below fs p p
  | entry {p q : Path} {entries : List (String × Node)} {name : String} {node : Node}
      (hdirectory : fs.nodeAt p = .ok (.directory entries)) (hentry : (name, node) ∈ entries)
      (hbelow : Below fs (p.join name) q) : Below fs p q

/-- Below a path that leads to no directory there is only the path itself. -/
theorem below_iff_of_not_isDirectory {p q : Path} (hp : ¬fs.IsDirectory p) :
    fs.Below p q ↔ q = p := by
  constructor
  · intro hbelow
    cases hbelow with
    | self => rfl
    | entry hdirectory _ _ => exact absurd ⟨_, hdirectory⟩ hp
  · rintro rfl
    exact .self q

theorem below_iff_of_directory {p q : Path} {entries : List (String × Node)}
    (hp : fs.nodeAt p = .ok (.directory entries)) :
    fs.Below p q ↔ q = p ∨ ∃ entry ∈ entries, fs.Below (p.join entry.1) q := by
  constructor
  · intro hbelow
    cases hbelow with
    | self => exact Or.inl rfl
    | @entry _ _ found name node hdirectory hentry hbelow =>
        obtain rfl : found = entries :=
          Node.directory.inj (Except.ok.inj (hdirectory.symm.trans hp))
        exact Or.inr ⟨(name, node), hentry, hbelow⟩
  · rintro (rfl | ⟨⟨name, node⟩, hentry, hbelow⟩)
    · exact .self q
    · exact .entry hp hentry hbelow

theorem lookup_eq_some_of_mem {entries : List (String × Node)}
    (hdistinct : (entries.map Prod.fst).Nodup) {name : String} {node : Node}
    (hmem : (name, node) ∈ entries) : entries.lookup name = some node := by
  induction entries with
  | nil => cases hmem
  | cons entry rest ih =>
      obtain ⟨other, old⟩ := entry
      rw [List.map_cons, List.nodup_cons] at hdistinct
      rcases List.mem_cons.1 hmem with heq | hrest
      · obtain ⟨rfl, rfl⟩ := Prod.mk.inj heq
        exact List.lookup_cons_self
      · have hother : name ≠ other := by
          rintro rfl
          exact hdistinct.1 (List.mem_map.2 ⟨_, hrest, rfl⟩)
        rw [List.lookup_cons, beq_eq_false_iff_ne.2 hother]
        exact ih hdistinct.2 hrest

/-- The joined path of an entry leads to the entry, unless it is too long. -/
theorem nodeAt_join (hfs : fs.WellFormed) {p : Path} {entries : List (String × Node)}
    {name : String} {node : Node} (hp : fs.nodeAt p = .ok (.directory entries))
    (hentry : (name, node) ∈ entries) (hfault : (p.join name).fault? = none) :
    fs.nodeAt (p.join name) = .ok node := by
  obtain ⟨names, hlocate, hfind⟩ := nodeAt_eq_ok_iff.1 hp
  obtain ⟨-, hwalk⟩ := locate_eq_ok_iff.1 hlocate
  obtain ⟨hdistinct, hnames⟩ := hfs names entries hfind
  have hname : IsEntryName name := hnames _ hentry
  obtain ⟨front, hsegments, hfront⟩ := Path.exists_segments_join p hname.slash_not_mem
  have hwalk' : front.foldlM fs.enter (fs.start (p.join name)) = .ok names := by
    rw [start, Path.isAbsolute_join p hname.slash_not_mem]
    rcases hfront with hfront | hfront
    · rwa [hfront] at hwalk
    · rw [hfront, walk_concat_eq_ok_iff] at hwalk
      obtain ⟨here, hhere, henter⟩ := hwalk
      obtain ⟨-, ⟨-, rfl⟩ | ⟨hup, -⟩ | ⟨hproper, -⟩⟩ := enter_eq_ok_iff.1 henter
      · exact hhere
      · simp at hup
      · cases hproper.1
  have hdirectory : fs.root.standing? names = some .directory :=
    Node.standing?_eq_directory_iff.2 ⟨entries, hfind⟩
  rw [nodeAt_eq_of_segments hsegments hname.proper hfault hwalk' hdirectory,
    if_neg (Nat.not_lt.2 hname.size_le), Node.find?_concat, hfind]
  have hfound : (some (Node.directory entries)).bind (·.entries.lookup name) = some node :=
    lookup_eq_some_of_mem hdistinct hentry
  rw [hfound]

/-- A path that leads to no directory is the only test that it can stand for. -/
theorem mem_self_iff {p q : Path} (hp : ¬fs.IsDirectory p) :
    (q ∈ if p.isTest then [p] else []) ↔ fs.Below p q ∧ ¬fs.IsDirectory q ∧
      q.isTest = true := by
  rw [below_iff_of_not_isDirectory hp]
  by_cases htest : p.isTest = true
  · rw [if_pos htest, List.mem_singleton]
    exact ⟨fun h => ⟨h, by rwa [h], by rwa [h]⟩, fun h => h.1⟩
  · rw [if_neg htest]
    refine ⟨nofun, ?_⟩
    rintro ⟨rfl, -, h⟩
    exact absurd h htest

theorem not_isDirectory_of_fault {p : Path} (hfault : p.fault? ≠ none) : ¬fs.IsDirectory p := by
  rintro ⟨entries, hp⟩
  obtain ⟨names, hlocate, -⟩ := nodeAt_eq_ok_iff.1 hp
  exact hfault (locate_eq_ok_iff.1 hlocate).1

/-- The tests below a node, which is reached by a path unless the text of the path is at
fault. -/
theorem mem_tests_iff (hfs : fs.WellFormed) {node : Node} {p q : Path}
    (hnode : p.fault? = none → fs.nodeAt p = .ok node) :
    q ∈ node.tests p ↔ fs.Below p q ∧ ¬fs.IsDirectory q ∧ q.isTest = true := by
  induction node using Node.induction generalizing p with
  | file content =>
      refine mem_self_iff ?_
      rintro ⟨entries, hp⟩
      by_cases hfault : p.fault? = none
      · rw [hnode hfault] at hp
        cases hp
      · exact not_isDirectory_of_fault hfault ⟨entries, hp⟩
  | directory entries ih =>
      rw [Node.tests]
      split
      · rename_i hfault
        have hp := hnode (Option.isNone_iff_eq_none.1 hfault)
        have hentries : ∀ entry ∈ entries, q ∈ entry.2.tests (p.join entry.1) ↔
            fs.Below (p.join entry.1) q ∧ ¬fs.IsDirectory q ∧ q.isTest = true :=
          fun entry hentry => ih entry hentry fun hjoin => nodeAt_join hfs hp hentry hjoin
        rw [Node.testsAmong_eq, List.mem_flatMap, below_iff_of_directory hp]
        constructor
        · rintro ⟨entry, hentry, hq⟩
          obtain ⟨hbelow, hrest⟩ := (hentries entry hentry).1 hq
          exact ⟨Or.inr ⟨entry, hentry, hbelow⟩, hrest⟩
        · rintro ⟨rfl | ⟨entry, hentry, hbelow⟩, hrest⟩
          · exact absurd ⟨entries, hp⟩ hrest.1
          · exact ⟨entry, hentry, (hentries entry hentry).2 ⟨hbelow, hrest⟩⟩
      · rename_i hfault
        exact mem_self_iff
          (not_isDirectory_of_fault fun h => hfault (Option.isNone_iff_eq_none.2 h))

/-- **What a search path stands for** are the paths of tests at and below it that lead to no
directory. -/
theorem mem_testsAt_iff (hfs : fs.WellFormed) {p q : Path} :
    q ∈ fs.testsAt p ↔ fs.Below p q ∧ ¬fs.IsDirectory q ∧ q.isTest = true := by
  by_cases hp : fs.IsDirectory p
  · obtain ⟨entries, hnode⟩ := hp
    rw [testsAt_of_nodeAt hnode]
    exact mem_tests_iff hfs fun _ => hnode
  · rw [testsAt_of_not_directory fun entries hentries => hp ⟨entries, hentries⟩]
    exact mem_self_iff hp

/-- **The members of the queue.** -/
theorem mem_findTests_iff (hfs : fs.WellFormed) {searchPaths : List Path} {q : Path} :
    q ∈ fs.findTests searchPaths ↔
      (∃ p ∈ searchPaths, fs.Below p q) ∧ ¬fs.IsDirectory q ∧ q.isTest = true := by
  rw [findTests, List.mem_mergeSort, List.mem_flatMap]
  simp only [mem_testsAt_iff hfs]
  constructor
  · rintro ⟨p, hp, hbelow, hq⟩
    exact ⟨⟨p, hp, hbelow⟩, hq⟩
  · rintro ⟨⟨p, hp, hbelow⟩, hq⟩
    exact ⟨p, hp, hbelow, hq⟩

end FileSystem

end GoldenRom

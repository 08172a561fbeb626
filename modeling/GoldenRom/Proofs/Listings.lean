import GoldenRom.Proofs.Discovery
import Mathlib.Data.List.Nodup

/-!
# The order of entries

A directory lists its entries in some order, and nobody has chosen it.  What is read and written
through paths does not depend on it.  Of the tests that a search path stands for it is the order
alone that does, and no two of them have the same components.

## Main definitions

* `Node.Relisted`: the same tree, in which some directories list their entries in another order.
* `FileSystem.Alike`: the same files and directories at the same places.
* `FileSystem.LeadsTo`: a search path leads to a test.

## Main results

* `FileSystem.nodup_components_testsAt`: the tests that a search path stands for differ in their
  components.
* `FileSystem.alike_of_relisted`: the order of entries has no influence on what stands where.
* `FileSystem.Alike.testsAt_perm`: the order of entries changes the order of these tests only.
-/

namespace GoldenRom

/-- A joined path means what the path means, and the name behind it. -/
theorem Path.components_join (p : Path) {name : String} (hname : IsProper name)
    (hslash : '/' ∉ name.toList) :
    (p.join name).components = p.components ++ [.normal name] := by
  obtain ⟨front, hjoin, hsegments⟩ := p.exists_segments_join hslash
  have hdot : name ≠ "." := by
    rintro rfl
    cases hname.1
  have hhead : (p.join name).segments.head? = some "." ↔ p.segments.head? = some "." := by
    rw [hjoin]
    cases front with
    | nil =>
        rcases hsegments with hnil | hempty
        · exact absurd hnil p.segments_ne_nil
        · simp [hempty, hdot]
    | cons first front => rcases hsegments with hsegments | hsegments <;> simp [hsegments]
  have hfilter : p.segments.filter (!isIdle ·) = front.filter (!isIdle ·) := by
    rcases hsegments with hsegments | hsegments
    · rw [hsegments]
    · rw [hsegments, List.filter_append]
      exact List.append_nil _
  have hlast : [name].filter (!isIdle ·) = [name] := by simp [hname.1]
  rw [components, components, isAbsolute_join p hslash, hfilter, hjoin, List.filter_append,
    hlast, List.map_append, ← List.append_assoc, ← hjoin]
  simp only [hhead, List.map_cons, List.map_nil, component, if_neg hname.2]

namespace Node

/-- The same tree, in which some directories list their entries in another order. -/
inductive Relisted : Node → Node → Prop
  | refl (node : Node) : Relisted node node
  | trans {node middle last : Node} (hfirst : Relisted node middle)
      (hsecond : Relisted middle last) : Relisted node last
  /-- A directory lists its entries in another order. -/
  | directory {entries entries' : List (String × Node)} (hperm : entries.Perm entries') :
      Relisted (.directory entries) (.directory entries')
  /-- The change is made somewhere below an entry. -/
  | entry {entries : List (String × Node)} {name : String} {node node' : Node}
      (hentry : entries.lookup name = some node) (hnode : Relisted node node') :
      Relisted (.directory entries) (.directory (replaceEntry name node' entries))

theorem map_fst_replaceEntry {entries : List (String × Node)} {name : String} {old : Node}
    (hentry : entries.lookup name = some old) (node : Node) :
    (replaceEntry name node entries).map Prod.fst = entries.map Prod.fst := by
  induction entries with
  | nil => cases hentry
  | cons entry rest ih =>
      obtain ⟨other, found⟩ := entry
      rw [replaceEntry]
      split
      · rename_i hother
        rw [List.map_cons, List.map_cons, hother]
      · rename_i hother
        rw [List.lookup_cons, beq_eq_false_iff_ne.2 (Ne.symm hother)] at hentry
        rw [List.map_cons, List.map_cons, ih hentry]

end Node

namespace FileSystem

variable {fs other : FileSystem}

/-! ## What a search path stands for -/

/-- A search path leads to a test: the test has the name of one, it is no directory, and it is
the path itself or lies below the directory to which the path leads. -/
def LeadsTo (fs : FileSystem) (p q : Path) : Prop :=
  fs.Below p q ∧ ¬fs.IsDirectory q ∧ q.isTest = true

theorem WellFormed.of_mem {entries : List (String × Node)} {working : List String}
    (hdirectory : WellFormed ⟨.directory entries, working⟩) {entry : String × Node}
    (hmem : entry ∈ entries) :
    IsEntryName entry.1 ∧ WellFormed ⟨entry.2, working⟩ := by
  obtain ⟨hdistinct, hnames, hbelow⟩ := wellFormed_directory_iff.1 hdirectory
  exact ⟨hnames entry.1 (List.mem_map_of_mem hmem),
    hbelow entry.1 entry.2 (lookup_eq_some_of_mem hdistinct hmem)⟩

/-- A test that stands for itself is alone. -/
theorem nodup_components_self (p : Path) :
    ((if p.isTest then [p] else []).map Path.components).Nodup ∧
      ∀ q ∈ (if p.isTest then [p] else []), p.components <+: q.components := by
  split <;> simp

/-- The tests at and below a node extend the components of its path, and no two of them have the
same. -/
theorem nodup_components_tests {node : Node} (p : Path) {working : List String}
    (hnode : WellFormed ⟨node, working⟩) :
    ((node.tests p).map Path.components).Nodup ∧
      ∀ q ∈ node.tests p, p.components <+: q.components := by
  induction node using Node.induction generalizing p with
  | file content => exact nodup_components_self p
  | directory entries ih =>
      rw [Node.tests]
      split
      · have hentry : ∀ entry ∈ entries,
            ((entry.2.tests (p.join entry.1)).map Path.components).Nodup ∧
              ∀ q ∈ entry.2.tests (p.join entry.1),
                p.components ++ [.normal entry.1] <+: q.components := by
          intro entry hmem
          obtain ⟨hname, hbelow⟩ := hnode.of_mem hmem
          rw [← p.components_join hname.proper hname.slash_not_mem]
          exact ih entry hmem (p.join entry.1) hbelow
        have hdistinct : entries.Pairwise fun entry next => entry.1 ≠ next.1 :=
          List.pairwise_map.1 (hnode [] entries rfl).1
        rw [Node.testsAmong_eq]
        constructor
        · rw [List.map_flatMap, List.nodup_flatMap]
          refine ⟨fun entry hmem => (hentry entry hmem).1, hdistinct.imp_of_mem ?_⟩
          -- Below two entries the components differ where the names of the entries stand.
          intro entry next hmem hmem' hne components hfirst hsecond
          obtain ⟨q, hq, rfl⟩ := List.mem_map.1 hfirst
          obtain ⟨q', hq', hsame⟩ := List.mem_map.1 hsecond
          have hprefix := (hentry entry hmem).2 q hq
          have hprefix' := (hentry next hmem').2 q' hq'
          rw [hsame] at hprefix'
          have hnames :=
            (List.prefix_of_prefix_length_le hprefix hprefix' (by simp)).eq_of_length (by simp)
          simp [hne] at hnames
        · intro q hq
          obtain ⟨entry, hmem, hq⟩ := List.mem_flatMap.1 hq
          exact (List.prefix_append _ _).trans ((hentry entry hmem).2 q hq)
      · exact nodup_components_self p

/-- **The tests that a search path stands for differ in their components.** -/
theorem nodup_components_testsAt (hfs : fs.WellFormed) (p : Path) :
    ((fs.testsAt p).map Path.components).Nodup := by
  rw [testsAt]
  split
  · rename_i node hnode
    obtain ⟨names, -, hfind⟩ := nodeAt_eq_ok_iff.1 hnode
    exact (nodup_components_tests p (hfs.of_find? hfind fs.working)).1
  · exact (nodup_components_self p).1

theorem nodup_testsAt (hfs : fs.WellFormed) (p : Path) : (fs.testsAt p).Nodup :=
  (nodup_components_testsAt hfs p).of_map

/-- A joined path leads to a directory if its entry is one, unless the text of the path is at
fault. -/
theorem isDirectory_join_iff (hfs : fs.WellFormed) {p : Path} {entries : List (String × Node)}
    {name : String} {node : Node} (hp : fs.nodeAt p = .ok (.directory entries))
    (hentry : (name, node) ∈ entries) :
    fs.IsDirectory (p.join name) ↔
      node.standing = .directory ∧ (p.join name).fault? = none := by
  by_cases hfault : (p.join name).fault? = none
  · have hjoin := nodeAt_join hfs hp hentry hfault
    rw [IsDirectory, hjoin, Node.standing_eq_directory_iff]
    simp [hfault]
  · exact ⟨fun hdirectory => absurd hdirectory (not_isDirectory_of_fault hfault),
      fun h => absurd h.2 hfault⟩

theorem isDirectory_iff {p : Path} :
    fs.IsDirectory p ↔
      ∃ names, fs.locate p = .ok names ∧ fs.root.standing? names = some .directory := by
  simp only [IsDirectory, nodeAt_eq_ok_iff, Node.standing?_eq_directory_iff]
  constructor
  · rintro ⟨entries, names, hlocate, hfind⟩
    exact ⟨names, hlocate, entries, hfind⟩
  · rintro ⟨names, hlocate, entries, hfind⟩
    exact ⟨entries, names, hlocate, hfind⟩

/-! ## Other listings of the same files -/

/-- The same files and directories at the same places.  The order in which directories list them
may be another. -/
structure Alike (fs other : FileSystem) : Prop where
  working_eq : other.working = fs.working
  standing?_eq : ∀ names, other.root.standing? names = fs.root.standing? names

namespace Alike

variable {final : FileSystem}

theorem refl (fs : FileSystem) : fs.Alike fs :=
  ⟨rfl, fun _ => rfl⟩

theorem symm (h : fs.Alike other) : other.Alike fs :=
  ⟨h.working_eq.symm, fun names => (h.standing?_eq names).symm⟩

theorem trans (h : fs.Alike other) (h' : other.Alike final) : fs.Alike final :=
  ⟨h'.working_eq.trans h.working_eq,
    fun names => (h'.standing?_eq names).trans (h.standing?_eq names)⟩

theorem baselinesDiffer (h : fs.Alike other) : fs.BaselinesDiffer other :=
  ⟨h.working_eq, fun names => by rw [h.standing?_eq], fun names _ => h.standing?_eq names⟩

/-- Two directories are alike if the same names lead to what is alike. -/
theorem directory {entries entries' : List (String × Node)} {working : List String}
    (hlookup : ∀ name rest,
      (entries'.lookup name).bind (·.standing? rest) =
        (entries.lookup name).bind (·.standing? rest)) :
    Alike ⟨.directory entries, working⟩ ⟨.directory entries', working⟩ := by
  refine ⟨rfl, fun names => ?_⟩
  cases names with
  | nil => rfl
  | cons name rest =>
      rw [Node.standing?_cons, Node.standing?_cons]
      exact hlookup name rest

end Alike

theorem lookup_eq_of_perm {entries entries' : List (String × Node)}
    (hperm : entries.Perm entries') (hdistinct : (entries.map Prod.fst).Nodup) (name : String) :
    entries'.lookup name = entries.lookup name := by
  have hdistinct' : (entries'.map Prod.fst).Nodup := (hperm.map Prod.fst).nodup_iff.1 hdistinct
  refine Option.ext fun node => ⟨fun hlookup => ?_, fun hlookup => ?_⟩
  · exact lookup_eq_some_of_mem hdistinct (hperm.mem_iff.2 (mem_of_lookup_eq_some hlookup))
  · exact lookup_eq_some_of_mem hdistinct' (hperm.mem_iff.1 (mem_of_lookup_eq_some hlookup))

/-- **The order of entries has no influence on what stands where.** -/
theorem alike_of_relisted {node node' : Node} (h : node.Relisted node')
    {working : List String} (hnode : WellFormed ⟨node, working⟩) :
    WellFormed ⟨node', working⟩ ∧ Alike ⟨node, working⟩ ⟨node', working⟩ := by
  induction h with
  | refl node => exact ⟨hnode, .refl _⟩
  | trans _ _ ih ih' =>
      obtain ⟨hmiddle, halike⟩ := ih hnode
      obtain ⟨hlast, halike'⟩ := ih' hmiddle
      exact ⟨hlast, halike.trans halike'⟩
  | directory hperm =>
      obtain ⟨hdistinct, hnames, hbelow⟩ := wellFormed_directory_iff.1 hnode
      have hlookup := lookup_eq_of_perm hperm hdistinct
      have hmap := hperm.map Prod.fst
      refine ⟨wellFormed_directory_iff.2 ⟨hmap.nodup_iff.1 hdistinct,
        fun name hname => hnames name (hmap.mem_iff.2 hname), fun name node hnode =>
          hbelow name node (hlookup name ▸ hnode)⟩, .directory fun name rest => ?_⟩
      rw [hlookup]
  | entry hentry _ ih =>
      obtain ⟨hdistinct, hnames, hbelow⟩ := wellFormed_directory_iff.1 hnode
      obtain ⟨hnode', halike⟩ := ih (hbelow _ _ hentry)
      refine ⟨wellFormed_directory_iff.2 ?_, .directory fun other rest => ?_⟩
      · rw [Node.map_fst_replaceEntry hentry]
        refine ⟨hdistinct, hnames, fun other found hfound => ?_⟩
        rw [lookup_replaceEntry] at hfound
        split at hfound
        · exact Option.some.inj hfound ▸ hnode'
        · exact hbelow other found hfound
      · rw [lookup_replaceEntry]
        split
        · rename_i hother
          rw [hother, hentry]
          exact halike.standing?_eq rest
        · rfl

namespace Alike

/-- A step leads to the same place in both. -/
theorem enter_iff (h : fs.Alike other) {here next : List String} {segment : String} :
    other.enter here segment = .ok next ↔ fs.enter here segment = .ok next := by
  simp only [enter_eq_ok_iff, h.standing?_eq]

theorem walk_iff (h : fs.Alike other) {segments here names : List String} :
    segments.foldlM other.enter here = .ok names ↔
      segments.foldlM fs.enter here = .ok names := by
  induction segments generalizing here with
  | nil => rfl
  | cons segment rest ih =>
      rw [List.foldlM_cons, List.foldlM_cons, bind_eq_ok_iff, bind_eq_ok_iff]
      simp only [h.enter_iff, ih]

theorem locate_iff (h : fs.Alike other) {p : Path} {names : List String} :
    other.locate p = .ok names ↔ fs.locate p = .ok names := by
  rw [locate_eq_ok_iff, locate_eq_ok_iff, h.walk_iff, start, start, h.working_eq]

theorem read_iff (h : fs.Alike other) {p : Path} {content : ByteArray} :
    other.read p = .ok content ↔ fs.read p = .ok content := by
  simp only [read_eq_ok_iff, h.locate_iff, h.standing?_eq]

theorem readText_iff (h : fs.Alike other) {p : Path} {text : String} :
    other.readText p = .ok text ↔ fs.readText p = .ok text := by
  rw [readText_eq_ok_iff, readText_eq_ok_iff, h.read_iff]

theorem isDirectory_iff (h : fs.Alike other) {p : Path} :
    other.IsDirectory p ↔ fs.IsDirectory p := by
  simp only [FileSystem.isDirectory_iff, h.locate_iff, h.standing?_eq]

/-- An entry of a directory is listed in the other as well. -/
theorem exists_entry (h : fs.Alike other) (hfs : fs.WellFormed) {p : Path}
    {entries : List (String × Node)} (hp : fs.nodeAt p = .ok (.directory entries))
    {entry : String × Node} (hmem : entry ∈ entries) :
    ∃ entries' node', other.nodeAt p = .ok (.directory entries') ∧
      (entry.1, node') ∈ entries' := by
  obtain ⟨names, hlocate, hfind⟩ := nodeAt_eq_ok_iff.1 hp
  have hdirectory : other.root.standing? names = some .directory := by
    rw [h.standing?_eq, Node.standing?_eq_directory_iff]
    exact ⟨entries, hfind⟩
  obtain ⟨entries', hfind'⟩ := Node.standing?_eq_directory_iff.1 hdirectory
  have hlookup : entries.lookup entry.1 = some entry.2 :=
    lookup_eq_some_of_mem (hfs names entries hfind).1 hmem
  have hstanding : other.root.standing? (names ++ [entry.1]) = some entry.2.standing := by
    rw [h.standing?_eq, Node.standing?, Node.find?_concat, hfind, Option.bind_some,
      Node.entries, hlookup, Option.map_some]
  rw [Node.standing?, Node.find?_concat, hfind', Option.bind_some, Option.map_eq_some_iff]
    at hstanding
  obtain ⟨node', hlookup', -⟩ := hstanding
  exact ⟨entries', node', nodeAt_eq_ok_iff.2 ⟨names, h.locate_iff.2 hlocate, hfind'⟩,
    mem_of_lookup_eq_some hlookup'⟩

theorem below (h : fs.Alike other) (hfs : fs.WellFormed) {p q : Path} (hbelow : fs.Below p q) :
    other.Below p q := by
  induction hbelow with
  | self p => exact .self p
  | entry hdirectory hentry _ ih =>
      obtain ⟨entries', node', hdirectory', hentry'⟩ := h.exists_entry hfs hdirectory hentry
      exact .entry hdirectory' hentry' ih

theorem leadsTo_iff (h : fs.Alike other) (hfs : fs.WellFormed) (hother : other.WellFormed)
    {p q : Path} :
    other.LeadsTo p q ↔ fs.LeadsTo p q := by
  rw [LeadsTo, LeadsTo, h.isDirectory_iff]
  exact and_congr_left fun _ => ⟨h.symm.below hother, h.below hfs⟩

/-- **The order of entries changes nothing but the order of the tests** that a search path
stands for. -/
theorem testsAt_perm (h : fs.Alike other) (hfs : fs.WellFormed) (hother : other.WellFormed)
    (p : Path) :
    (fs.testsAt p).Perm (other.testsAt p) := by
  rw [List.perm_ext_iff_of_nodup (nodup_testsAt hfs p) (nodup_testsAt hother p)]
  intro q
  rw [mem_testsAt_iff hfs, mem_testsAt_iff hother]
  exact (h.leadsTo_iff hfs hother).symm

end Alike

end FileSystem

end GoldenRom

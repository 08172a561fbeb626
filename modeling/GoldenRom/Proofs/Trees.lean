import Mathlib.Data.List.Basic
import GoldenRom.Proofs.Paths

/-!
# What stands where

Whether a path leads somewhere depends on what stands at the places on its way, not on the order
in which a directory lists its entries.  So a file system is looked at as a map from places,
which are lists of names from the root, to what stands there.  Writing a file in an existing
directory changes this map at one place.

## Main definitions

* `Standing`, `Node.standing?`: what stands at a place.

## Main results

* `Node.standing?_putFile`: the map after a file has been put into a directory.
* `FileSystem.enter_eq_ok_iff`, `FileSystem.read_eq_ok_iff_of_segments`,
  `FileSystem.write_eq_ok_iff_of_segments`: paths in terms of the map.
-/

namespace GoldenRom

/-- What stands at a place of a file system. -/
inductive Standing where
  | file (content : ByteArray)
  | directory

namespace Node

/-- A node without the entries of a directory. -/
def standing : Node → Standing
  | file content => .file content
  | directory _ => .directory

/-- What stands at the place to which a list of names leads. -/
def standing? (node : Node) (names : List String) : Option Standing :=
  (node.find? names).map standing

theorem standing_eq_directory_iff {node : Node} :
    node.standing = .directory ↔ ∃ entries, node = .directory entries := by
  cases node <;> simp [standing]

theorem standing_eq_file_iff {node : Node} {content : ByteArray} :
    node.standing = .file content ↔ node = .file content := by
  cases node <;> simp [standing]

theorem standing?_eq_directory_iff {node : Node} {names : List String} :
    node.standing? names = some .directory ↔
      ∃ entries, node.find? names = some (.directory entries) := by
  rw [standing?, Option.map_eq_some_iff]
  simp only [standing_eq_directory_iff]
  constructor
  · rintro ⟨found, hfound, entries, rfl⟩
    exact ⟨entries, hfound⟩
  · rintro ⟨entries, hfound⟩
    exact ⟨_, hfound, entries, rfl⟩

theorem standing?_eq_file_iff {node : Node} {names : List String} {content : ByteArray} :
    node.standing? names = some (.file content) ↔ node.find? names = some (.file content) := by
  rw [standing?, Option.map_eq_some_iff]
  simp only [standing_eq_file_iff, exists_eq_right]

/-! ## Lists of names -/

theorem find?_append (node : Node) (front rest : List String) :
    node.find? (front ++ rest) = (node.find? front).bind (·.find? rest) := by
  induction front generalizing node with
  | nil => simp
  | cons name front ih =>
      rw [List.cons_append, find?, find?]
      cases node.entries.lookup name with
      | none => rfl
      | some next => exact ih next

theorem standing?_append (node : Node) (front rest : List String) :
    node.standing? (front ++ rest) = (node.find? front).bind (·.standing? rest) := by
  rw [standing?, find?_append, Option.map_bind]
  rfl

theorem find?_concat (node : Node) (front : List String) (name : String) :
    node.find? (front ++ [name]) = (node.find? front).bind (·.entries.lookup name) := by
  rw [find?_append]
  simp [find?]

@[simp] theorem standing?_nil (node : Node) : node.standing? [] = some node.standing := by
  rw [standing?, find?_nil]
  rfl

theorem standing?_cons (node : Node) (name : String) (rest : List String) :
    node.standing? (name :: rest) = (node.entries.lookup name).bind (·.standing? rest) := by
  rw [standing?, find?, Option.map_bind]
  rfl

/-- Whatever stands at a place stands in a directory. -/
theorem standing?_of_concat {node : Node} {front : List String} {name : String}
    (hstands : (node.standing? (front ++ [name])).isSome = true) :
    node.standing? front = some .directory := by
  rw [standing?, Option.isSome_map, find?_concat] at hstands
  rw [standing?_eq_directory_iff]
  cases hfront : node.find? front with
  | none => simp [hfront] at hstands
  | some found =>
      cases found with
      | file content => simp [hfront, entries] at hstands
      | directory entries => exact ⟨entries, rfl⟩

/-- The way to a directory leads through directories. -/
theorem standing?_of_append {node : Node} {front rest : List String}
    (hstands : node.standing? (front ++ rest) = some .directory) :
    node.standing? front = some .directory := by
  cases rest with
  | nil => rwa [List.append_nil] at hstands
  | cons name rest =>
      rw [standing?, find?_append, Option.map_bind, Option.bind_eq_some_iff] at hstands
      obtain ⟨found, hfound, hrest⟩ := hstands
      rw [standing?_eq_directory_iff]
      cases found with
      | file content => simp [find?, entries] at hrest
      | directory entries => exact ⟨entries, hfound⟩

theorem standing?_dropLast {node : Node} {names : List String}
    (hnames : node.standing? names = some .directory) :
    node.standing? names.dropLast = some .directory := by
  rcases List.eq_nil_or_concat names with rfl | ⟨front, name, rfl⟩
  · exact hnames
  · rw [List.concat_eq_append] at hnames ⊢
    rw [List.dropLast_concat]
    exact standing?_of_append hnames

/-! ## A file put into a directory -/

/-- On the way to a change stands the node with the rest of the change made in it. -/
theorem find?_alter_append (change : Option Node → Node) (old : Option Node)
    (front rest : List String) :
    (alter change old (front ++ rest)).find? front =
      some (alter change (old.bind (·.find? front)) rest) := by
  induction front generalizing old with
  | nil => cases old <;> simp
  | cons name front ih =>
      rw [List.cons_append, alter, find?]
      simp only [entries, lookup_replaceEntry, if_true, Option.bind_some, ih]
      cases old <;> simp [find?]

/-- A change below one entry leaves the others as they are. -/
theorem find?_alter_cons (change : Option Node → Node) (node : Node) (name other : String)
    (rest others : List String) :
    (alter change (some node) (name :: rest)).find? (other :: others) =
      if other = name then (alter change (node.entries.lookup name) rest).find? others
      else node.find? (other :: others) := by
  rw [alter, find?]
  show ((replaceEntry name _ node.entries).lookup other).bind _ = _
  rw [lookup_replaceEntry]
  split
  · rfl
  · rw [find?]

/-- Off the way to a file that is put into a directory, nothing changes. -/
theorem find?_putFile_of_not_prefix {node : Node} {parent names : List String} {name : String}
    (content : ByteArray) (hparent : node.standing? parent = some .directory)
    (hold : node.standing? (parent ++ [name]) ≠ some .directory)
    (hnames : ¬names <+: parent ++ [name]) :
    (node.putFile (parent ++ [name]) content).find? names = node.find? names := by
  induction parent generalizing node names with
  | nil =>
      cases names with
      | nil => exact absurd List.nil_prefix hnames
      | cons other rest =>
          rw [putFile, List.nil_append, find?_alter_cons]
          split
          · subst other
            -- The way goes on behind the file, where nothing stands, and before nothing stood
            -- there either.
            cases rest with
            | nil => exact absurd (List.prefix_refl [name]) hnames
            | cons next rest =>
                rw [find?, find?]
                cases hlookup : node.entries.lookup name with
                | none => rfl
                | some old =>
                    cases old with
                    | file _ => rfl
                    | directory _ => simp [standing?, find?, hlookup, standing] at hold
          · rfl
  | cons first parent ih =>
      cases names with
      | nil => exact absurd List.nil_prefix hnames
      | cons other rest =>
          rw [standing?, find?] at hparent
          cases hlookup : node.entries.lookup first with
          | none => simp [hlookup] at hparent
          | some next =>
              simp only [hlookup, Option.bind_some] at hparent
              have hold' : next.standing? (parent ++ [name]) ≠ some .directory := by
                rw [List.cons_append, standing?, find?, hlookup] at hold
                exact hold
              rw [putFile, List.cons_append, find?_alter_cons, hlookup]
              split
              · subst other
                have hrest : ¬rest <+: parent ++ [name] :=
                  fun hprefix => hnames (List.cons_prefix_cons.2 ⟨rfl, hprefix⟩)
                rw [find?, hlookup]
                exact ih hparent hold' hrest
              · rfl

/-- **A file is put into a directory.**  The place of the file is the only one that changes. -/
theorem standing?_putFile {node : Node} {parent : List String} {name : String}
    (content : ByteArray) (hparent : node.standing? parent = some .directory)
    (hold : node.standing? (parent ++ [name]) ≠ some .directory) (names : List String) :
    (node.putFile (parent ++ [name]) content).standing? names =
      if names = parent ++ [name] then some (.file content) else node.standing? names := by
  split
  · rename_i heq
    rw [heq, standing?, find?_putFile]
    rfl
  · rename_i hne
    by_cases hprefix : names <+: parent ++ [name]
    · -- The place of the file is not `names`, so `names` leads to a directory, also in the
      -- changed tree.
      have hfront : names <+: parent := (List.prefix_concat_iff.1 hprefix).resolve_left hne
      obtain ⟨middle, rfl⟩ := hfront
      rw [standing?_of_append hparent, standing?, putFile, List.append_assoc,
        find?_alter_append]
      cases middle <;> rfl
    · rw [standing?, standing?, find?_putFile_of_not_prefix content hparent hold hprefix]

end Node

/-! ## Paths -/

namespace FileSystem

theorem bind_eq_ok_iff {ε α β : Type} {first : Except ε α} {next : α → Except ε β}
    {result : β} :
    (first >>= next) = .ok result ↔ ∃ value, first = .ok value ∧ next value = .ok result := by
  cases first with
  | error error => exact ⟨nofun, nofun⟩
  | ok value => exact ⟨fun h => ⟨value, rfl, h⟩, fun ⟨_, hvalue, h⟩ => by cases hvalue; exact h⟩

/-- A step of a path leads on from a directory: nowhere, up, or to an entry. -/
theorem enter_eq_ok_iff {fs : FileSystem} {here next : List String} {segment : String} :
    fs.enter here segment = .ok next ↔
      fs.root.standing? here = some .directory ∧
        ((Path.isIdle segment = true ∧ next = here) ∨ (segment = ".." ∧ next = here.dropLast) ∨
          (Path.IsProper segment ∧ segment.utf8ByteSize ≤ longestName ∧
            (fs.root.standing? (here ++ [segment])).isSome = true ∧
              next = here ++ [segment])) := by
  rw [enter]
  cases hhere : fs.root.find? here with
  | none => simp [Node.standing?, hhere]
  | some node =>
      cases node with
      | file content => simp [Node.standing?, Node.standing, hhere]
      | directory entries =>
          have hup : Path.isIdle ".." = false := rfl
          have hentry : (fs.root.standing? (here ++ [segment])).isSome =
              (entries.lookup segment).isSome := by
            rw [Node.standing?, Option.isSome_map, Node.find?_concat, hhere]
            rfl
          have hstanding : fs.root.standing? here = some .directory := by
            rw [Node.standing?, hhere]; rfl
          simp only [hstanding, hentry, true_and, Path.IsProper]
          grind

/-- A way is gone segment by segment. -/
theorem walk_concat_eq_ok_iff {fs : FileSystem} {start names : List String}
    {front : List String} {segment : String} :
    (front ++ [segment]).foldlM fs.enter start = .ok names ↔
      ∃ here, front.foldlM fs.enter start = .ok here ∧ fs.enter here segment = .ok names := by
  rw [List.foldlM_append, bind_eq_ok_iff]
  simp only [List.foldlM_cons, List.foldlM_nil, bind_pure]

theorem locate_eq_ok_iff {fs : FileSystem} {p : Path} {names : List String} :
    fs.locate p = .ok names ↔ p.fault? = none ∧
      p.segments.foldlM fs.enter (fs.start p) = .ok names := by
  rw [locate]
  cases hfault : p.fault? with
  | none => simp
  | some error => simp

theorem nodeAt_eq_ok_iff {fs : FileSystem} {p : Path} {node : Node} :
    fs.nodeAt p = .ok node ↔ ∃ names, fs.locate p = .ok names ∧
      fs.root.find? names = some node := by
  rw [nodeAt, bind_eq_ok_iff]
  refine exists_congr fun names => and_congr_right fun _ => ?_
  cases fs.root.find? names with
  | none => exact ⟨nofun, nofun⟩
  | some found =>
      exact ⟨fun h => congrArg some (Except.ok.inj h),
        fun h => congrArg Except.ok (Option.some.inj h)⟩

theorem read_eq_ok_iff {fs : FileSystem} {p : Path} {content : ByteArray} :
    fs.read p = .ok content ↔ ∃ names, fs.locate p = .ok names ∧
      fs.root.standing? names = some (.file content) := by
  have hread : fs.read p = .ok content ↔ fs.nodeAt p = .ok (.file content) := by
    rw [read, bind_eq_ok_iff]
    constructor
    · rintro ⟨node, hnode, hcontent⟩
      cases node with
      | file found =>
          obtain rfl := Except.ok.inj hcontent
          exact hnode
      | directory entries => cases hcontent
    · exact fun hnode => ⟨_, hnode, rfl⟩
  rw [hread, nodeAt_eq_ok_iff]
  simp only [Node.standing?_eq_file_iff]

/-- Every text is read back from its bytes. -/
theorem fromUTF8?_eq_some_iff {bytes : ByteArray} {text : String} :
    String.fromUTF8? bytes = some text ↔ bytes = text.toUTF8 := by
  rw [String.fromUTF8?]
  constructor
  · intro htext
    split at htext
    · obtain rfl := Option.some.inj htext
      rfl
    · cases htext
  · rintro rfl
    exact dif_pos text.isValidUTF8

theorem readText_eq_ok_iff {fs : FileSystem} {p : Path} {text : String} :
    fs.readText p = .ok text ↔ fs.read p = .ok text.toUTF8 := by
  rw [readText, bind_eq_ok_iff]
  constructor
  · rintro ⟨bytes, hread, htext⟩
    split at htext
    · rename_i found hfound
      obtain rfl := Except.ok.inj htext
      rw [hread, fromUTF8?_eq_some_iff.1 hfound]
    · cases htext
  · intro hread
    refine ⟨text.toUTF8, hread, ?_⟩
    rw [fromUTF8?_eq_some_iff.2 rfl]
    rfl

/-! ## Paths that end in a name -/

section Name

variable {fs : FileSystem} {p : Path} {front parent : List String} {name : String}

/-- A path that leads to a file ends in the name of the file. -/
theorem exists_segments_of_read {content : ByteArray} (hread : fs.read p = .ok content) :
    ∃ front name, p.segments = front ++ [name] ∧ Path.IsProper name := by
  obtain ⟨names, hlocate, hfile⟩ := read_eq_ok_iff.1 hread
  obtain ⟨-, hwalk⟩ := locate_eq_ok_iff.1 hlocate
  obtain ⟨front, name, hsegments⟩ :=
    (List.eq_nil_or_concat' p.segments).resolve_left p.segments_ne_nil
  rw [hsegments, walk_concat_eq_ok_iff] at hwalk
  obtain ⟨here, -, henter⟩ := hwalk
  obtain ⟨hhere, ⟨-, rfl⟩ | ⟨-, rfl⟩ | ⟨hname, -, -, -⟩⟩ := enter_eq_ok_iff.1 henter
  · rw [hhere] at hfile
    cases hfile
  · rw [Node.standing?_dropLast hhere] at hfile
    cases hfile
  · exact ⟨front, name, hsegments, hname⟩

/-- A step to a name leads to an entry. -/
theorem enter_eq_ok_iff_of_isProper {here next : List String} (hname : Path.IsProper name) :
    fs.enter here name = .ok next ↔
      fs.root.standing? here = some .directory ∧ name.utf8ByteSize ≤ longestName ∧
        (fs.root.standing? (here ++ [name])).isSome = true ∧ next = here ++ [name] := by
  rw [enter_eq_ok_iff]
  simp [hname.1, hname.2, hname]

/-- A file is read in the directory to which the segments in front of its name lead. -/
theorem read_eq_ok_iff_of_segments (hsegments : p.segments = front ++ [name])
    (hname : Path.IsProper name) {content : ByteArray} :
    fs.read p = .ok content ↔
      p.fault? = none ∧ name.utf8ByteSize ≤ longestName ∧
        ∃ parent, front.foldlM fs.enter (fs.start p) = .ok parent ∧
          fs.root.standing? (parent ++ [name]) = some (.file content) := by
  rw [read_eq_ok_iff]
  simp only [locate_eq_ok_iff, hsegments, walk_concat_eq_ok_iff,
    enter_eq_ok_iff_of_isProper hname]
  constructor
  · rintro ⟨names, ⟨hfault, here, hwalk, -, hsize, -, rfl⟩, hfile⟩
    exact ⟨hfault, hsize, here, hwalk, hfile⟩
  · rintro ⟨hfault, hsize, here, hwalk, hfile⟩
    have hstands : (fs.root.standing? (here ++ [name])).isSome = true := by
      rw [hfile]
      rfl
    exact ⟨here ++ [name], ⟨hfault, here, hwalk, Node.standing?_of_concat hstands, hsize,
      hstands, rfl⟩, hfile⟩

theorem eq_of_locate_eq_ok (hsegments : p.segments = front ++ [name])
    (hname : Path.IsProper name) (hwalk : front.foldlM fs.enter (fs.start p) = .ok parent)
    {names : List String} (hlocate : fs.locate p = .ok names) : names = parent ++ [name] := by
  rw [locate_eq_ok_iff, hsegments, walk_concat_eq_ok_iff] at hlocate
  obtain ⟨-, here, hhere, henter⟩ := hlocate
  obtain rfl : here = parent := Except.ok.inj (hhere.symm.trans hwalk)
  exact ((enter_eq_ok_iff_of_isProper hname).1 henter).2.2.2

theorem text_ne_empty_of_segments (hsegments : p.segments = front ++ [name])
    (hname : Path.IsProper name) : p.text ≠ "" := by
  intro hempty
  have hlast := congrArg List.getLast? hsegments
  simp [Path.segments, hempty] at hlast
  subst hlast
  cases hname.1

/-- What stands at a path that ends in a name, once its way has led to a directory. -/
theorem nodeAt_eq_of_segments (hsegments : p.segments = front ++ [name])
    (hname : Path.IsProper name) (hfault : p.fault? = none)
    (hwalk : front.foldlM fs.enter (fs.start p) = .ok parent)
    (hdirectory : fs.root.standing? parent = some .directory) :
    fs.nodeAt p =
      if longestName < name.utf8ByteSize then .error .nameTooLong
      else match fs.root.find? (parent ++ [name]) with
        | some node => .ok node
        | none => .error .notFound := by
  obtain ⟨entries, hentries⟩ := Node.standing?_eq_directory_iff.1 hdirectory
  have hlocate : fs.locate p = fs.enter parent name := by
    rw [locate, hfault]
    show p.segments.foldlM fs.enter (fs.start p) = _
    rw [hsegments, List.foldlM_append, hwalk]
    exact bind_pure (fs.enter parent name)
  have hentry : fs.root.find? (parent ++ [name]) = entries.lookup name := by
    rw [Node.find?_concat, hentries]
    rfl
  rw [nodeAt, hlocate, enter, hentries, hentry]
  simp only [hname.1, hname.2, Bool.false_eq_true, if_false]
  split
  · rfl
  · cases hlookup : entries.lookup name with
    | none => rfl
    | some node =>
        show (match fs.root.find? (parent ++ [name]) with | some node => _ | none => _) = _
        rw [hentry, hlookup]
        rfl

theorem locateNew_eq_ok_of_segments (hsegments : p.segments = front ++ [name])
    (hname : Path.IsProper name) (hwalk : front.foldlM fs.enter (fs.start p) = .ok parent) :
    fs.locateNew p = .ok (parent ++ [name]) := by
  rw [locateNew, hsegments, List.getLast?_concat]
  show (if _ then _ else _) = _
  rw [if_neg (by simp [hname.1, hname.2]), List.dropLast_concat, hwalk]
  rfl

/-- A file can be written into an existing directory, unless there is a directory in its
place. -/
theorem write_eq_ok_of_segments (hsegments : p.segments = front ++ [name])
    (hname : Path.IsProper name) (hwalk : front.foldlM fs.enter (fs.start p) = .ok parent)
    (hdirectory : fs.root.standing? parent = some .directory) (hfault : p.fault? = none)
    (hsize : name.utf8ByteSize ≤ longestName)
    (hold : fs.root.standing? (parent ++ [name]) ≠ some .directory) (content : ByteArray) :
    fs.write p content = .ok { fs with
      root := fs.root.putFile (parent ++ [name]) content } := by
  have hnode := nodeAt_eq_of_segments hsegments hname hfault hwalk hdirectory
  rw [if_neg (Nat.not_lt.2 hsize)] at hnode
  cases hfind : fs.root.find? (parent ++ [name]) with
  | none =>
      rw [hfind] at hnode
      rw [write, hnode, locateNew_eq_ok_of_segments hsegments hname hwalk]
      rfl
  | some node =>
      rw [hfind] at hnode
      cases node with
      | directory entries =>
          exact absurd (Node.standing?_eq_directory_iff.2 ⟨entries, hfind⟩) hold
      | file old =>
          obtain ⟨names, hlocate, -⟩ := nodeAt_eq_ok_iff.1 hnode
          obtain rfl := eq_of_locate_eq_ok hsegments hname hwalk hlocate
          rw [write, hnode, hlocate]
          rfl

/-- **Nothing else can be written there**, and this is what writing does. -/
theorem write_eq_ok_iff_of_segments (hsegments : p.segments = front ++ [name])
    (hname : Path.IsProper name) (hwalk : front.foldlM fs.enter (fs.start p) = .ok parent)
    (hdirectory : fs.root.standing? parent = some .directory) {content : ByteArray}
    {after : FileSystem} :
    fs.write p content = .ok after ↔
      p.fault? = none ∧ name.utf8ByteSize ≤ longestName ∧
        fs.root.standing? (parent ++ [name]) ≠ some .directory ∧
        after = { fs with root := fs.root.putFile (parent ++ [name]) content } := by
  constructor
  · intro hwrite
    have hfault : p.fault? = none := by
      cases hfault : p.fault? with
      | none => rfl
      | some error =>
          have hnode : fs.nodeAt p = .error error := by
            rw [nodeAt, locate, hfault]
            rfl
          -- An empty path leads nowhere too, but it does not end in a name.
          have herror : error ≠ .notFound := by
            rintro rfl
            refine text_ne_empty_of_segments hsegments hname ?_
            grind [Path.fault?]
          rw [write, hnode] at hwrite
          cases error <;> first | exact absurd rfl herror | cases hwrite
    have hnode := nodeAt_eq_of_segments hsegments hname hfault hwalk hdirectory
    have hsize : name.utf8ByteSize ≤ longestName := by
      refine Nat.le_of_not_lt fun hlong => ?_
      rw [if_pos hlong] at hnode
      rw [write, hnode] at hwrite
      cases hwrite
    have hold : fs.root.standing? (parent ++ [name]) ≠ some .directory := by
      intro hold
      obtain ⟨entries, hfind⟩ := Node.standing?_eq_directory_iff.1 hold
      rw [if_neg (Nat.not_lt.2 hsize), hfind] at hnode
      rw [write, hnode] at hwrite
      cases hwrite
    rw [write_eq_ok_of_segments hsegments hname hwalk hdirectory hfault hsize hold] at hwrite
    exact ⟨hfault, hsize, hold, (Except.ok.inj hwrite).symm⟩
  · rintro ⟨hfault, hsize, hold, rfl⟩
    exact write_eq_ok_of_segments hsegments hname hwalk hdirectory hfault hsize hold content

end Name

end FileSystem

end GoldenRom

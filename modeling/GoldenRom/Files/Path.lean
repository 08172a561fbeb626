/-!
# Paths

A path is a text whose segments stand between slashes.  The text is kept as it was given,
because it is printed; what it means is read from its segments.  Empty segments and inner `.`
segments mean nothing, and `..` names the directory above.

## Main definitions

* `Path.segments`, `Path.join`: the segments of the text, and the path of an entry of a
  directory.
* `Path.components`: what a path means for the purpose of sorting, and `Path.sortsBefore`, the
  order by components.
* `Path.fileName?`, `Path.extension?`: the last proper name and what follows its last dot.
* `Path.withExtension`: the path with the extension of its file name exchanged.

### Design notes

A name that starts with its only dot has no extension.  When an extension is exchanged, whatever
follows the file name is dropped.  One name resists: of `..x` nothing but `..` is left when its
extension is taken away, and that is no longer a file name, so it takes no new extension.
-/

namespace GoldenRom

/-- A path as it was written. -/
structure Path where
  text : String
deriving DecidableEq

/-- One step of a path, in the order in which steps sort. -/
inductive Component where
  /-- The slash that an absolute path starts with. -/
  | root
  /-- The leading `.` of a relative path. -/
  | current
  /-- The directory above. -/
  | parent
  /-- A name in a directory. -/
  | normal (name : String)
deriving DecidableEq, Ord

/-- A path cut at its file name. -/
structure FilePlace where
  /-- The segments in front of the file name. -/
  front : List String
  name : String
  /-- The segments behind the file name, which mean nothing. -/
  behind : List String
deriving DecidableEq

/-- A name cut at its last dot: what stands before it and what stands behind it. -/
def cutAtLastDot : List Char → Option (List Char × List Char)
  | [] => none
  | c :: rest => match cutAtLastDot rest with
    | some (before, behind) => some (c :: before, behind)
    | none => if c = '.' then some ([], rest) else none

/-- The stem of a name and its extension.  A dot at the very start of a name, if it is the only
one, belongs to the stem. -/
def stemAndExtension (name : String) : String × Option String :=
  match cutAtLastDot name.toList with
  | none | some ([], _) => (name, none)
  | some (before, behind) => (String.ofList before, some (String.ofList behind))

namespace Path

/-- The segments between the slashes of a path. -/
def segments (p : Path) : List String :=
  (p.text.toList.splitOn '/').map String.ofList

/-- The path with the given segments. -/
def ofSegments (segments : List String) : Path :=
  ⟨"/".intercalate segments⟩

/-- Whether a path starts at the root. -/
def isAbsolute (p : Path) : Bool :=
  p.text.toList.head? == some '/'

/-- The path of the entry with the given name in the directory at a path. -/
def join (p : Path) (name : String) : Path :=
  match p.text.toList.getLast? with
  | none | some '/' => ⟨p.text ++ name⟩
  | some _ => ⟨p.text ++ "/" ++ name⟩

/-- Whether a segment neither names anything nor goes up. -/
def isIdle (segment : String) : Bool :=
  segment == "" || segment == "."

/-- What a segment that is not idle means. -/
def component (segment : String) : Component :=
  if segment = ".." then .parent else .normal segment

/-- What a path means: where it starts, then the names and the upward steps.  A `.` counts at
the start of a relative path only. -/
def components (p : Path) : List Component :=
  let start :=
    if p.isAbsolute then [.root]
    else if p.segments.head? = some "." then [.current]
    else []
  start ++ (p.segments.filter (!isIdle ·)).map component

/-- Whether a path may stand before another in a sorted list.  Paths that mean the same may
stand either way. -/
def sortsBefore (p q : Path) : Bool :=
  (compare p.components q.components).isLE

/-- A path cut at its file name, the last segment that is not idle, unless that goes up. -/
def filePlace? (p : Path) : Option FilePlace :=
  let backwards := p.segments.reverse
  match backwards.dropWhile isIdle with
  | [] => none
  | name :: front =>
      if name = ".." then none
      else some { front := front.reverse, name, behind := (backwards.takeWhile isIdle).reverse }

/-- The file name of a path. -/
def fileName? (p : Path) : Option String :=
  p.filePlace?.map FilePlace.name

/-- The extension of the file name of a path. -/
def extension? (p : Path) : Option String :=
  p.fileName?.bind fun name => (stemAndExtension name).2

/-- The path with the extension of its file name exchanged for another; a path without a file
name stays. -/
def withExtension (p : Path) (extension : String) : Path :=
  match p.filePlace? with
  | none => p
  | some place =>
      let stem := (stemAndExtension place.name).1
      -- Without its extension the name `..x` is `..`, and that goes up.
      if stem = "." ∧ place.behind = [] then ofSegments (place.front ++ [".."])
      else ofSegments (place.front ++ [stem ++ "." ++ extension])

/-- The segments of a path, joined again, give the path back. -/
theorem ofSegments_segments (p : Path) : ofSegments p.segments = p := by
  have joined : ("/".intercalate p.segments).toList = p.text.toList := by
    rw [String.toList_intercalate, segments, List.map_map]
    simp [Function.comp_def]
  cases p
  exact congrArg Path.mk (String.toList_inj.mp joined)

end Path

end GoldenRom

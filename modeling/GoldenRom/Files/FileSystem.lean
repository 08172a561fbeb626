import GoldenRom.Files.Path

/-!
# File systems

A file system is a tree of directories and files, without links and without permissions.
Relative paths start at a working directory, and every step of a path is checked against the
tree, so a path may go through `..` but not through a file.

## Main definitions

* `Node`: a file with its bytes, or a directory with its entries.
* `Path.fault?`: why no file system takes the text of a path.
* `FileSystem`: a tree and the working directory.
* `FileSystem.locate`: the names from the root to which a path leads.
* `FileSystem.nodeAt`, `FileSystem.read`, `FileSystem.readText`, `FileSystem.write`: what can be
  done with a path.
* `FileSystem.putFile`, `FileSystem.putDirectory`: a tree furnished with what a path is to lead
  to.
* `FileSystem.changesSince`: the files that are new or different.

### Design notes

Two limits count bytes of UTF-8.  The limit of a path holds for its text, idle segments and all,
and comes before any step.  The limit of a name comes when the name is looked up, so what is
wrong on the way to it comes first.
-/

namespace GoldenRom

/-- A file or a directory. -/
inductive Node where
  | file (content : ByteArray)
  | directory (entries : List (String × Node))

/-- Why nothing could be read or written at a path. -/
inductive FileError where
  | notFound
  | notADirectory
  | isADirectory
  /-- A path or a name in it has more bytes than any may have. -/
  | nameTooLong
  /-- A path holds the character that ends a path text. -/
  | nulInPath
  /-- The bytes of a file are no text. -/
  | notText
deriving DecidableEq

/-- What an error says. -/
def FileError.message : FileError → String
  | notFound => "No such file or directory (os error 2)"
  | notADirectory => "Not a directory (os error 20)"
  | isADirectory => "Is a directory (os error 21)"
  | nameTooLong => "File name too long (os error 36)"
  | nulInPath => "file name contained an unexpected NUL byte"
  | notText => "stream did not contain valid UTF-8"

/-- How many bytes the text of a path may have. -/
def longestPath : Nat := 4095

/-- How many bytes a name in a directory may have. -/
def longestName : Nat := 255

/-- Why no file system takes the text of a path, whatever there is on its way. -/
def Path.fault? (p : Path) : Option FileError :=
  if '\x00' ∈ p.text.toList then some .nulInPath
  else if p.text = "" then some .notFound
  else if longestPath < p.text.utf8ByteSize then some .nameTooLong
  else none

/-- A path text is without fault if it has some bytes, none of them zero, and not too many. -/
theorem Path.fault?_eq_none_iff (p : Path) :
    p.fault? = none ↔ '\x00' ∉ p.text.toList ∧ p.text ≠ "" ∧
      p.text.utf8ByteSize ≤ longestPath := by
  grind [Path.fault?]

/-- The entries of a directory with one of them replaced or put behind the others. -/
def replaceEntry (name : String) (node : Node) : List (String × Node) → List (String × Node)
  | [] => [(name, node)]
  | (other, old) :: rest =>
      if other = name then (name, node) :: rest else (other, old) :: replaceEntry name node rest

theorem lookup_replaceEntry (name other : String) (node : Node)
    (entries : List (String × Node)) :
    (replaceEntry name node entries).lookup other =
      if other = name then some node else entries.lookup other := by
  induction entries with
  | nil => grind [replaceEntry]
  | cons entry rest ih =>
    obtain ⟨label, old⟩ := entry
    grind [replaceEntry]

namespace Node

/-- The entries of a node, none if it is a file. -/
def entries : Node → List (String × Node)
  | file _ => []
  | directory entries => entries

/-- The node to which a list of names leads. -/
def find? : Node → List String → Option Node
  | node, [] => some node
  | node, name :: rest => (node.entries.lookup name).bind fun next => find? next rest

/-- The tree with the node at a list of names made anew from what is there; directories on the
way are made if they are missing. -/
def alter (change : Option Node → Node) : Option Node → List String → Node
  | old, [] => change old
  | old, name :: rest =>
      let entries := (old.map Node.entries).getD []
      directory (replaceEntry name (alter change (entries.lookup name) rest) entries)

/-- The tree with a file at a list of names. -/
def putFile (node : Node) (names : List String) (content : ByteArray) : Node :=
  alter (fun _ => file content) (some node) names

/-- The tree with a directory at a list of names, as it was if there is one. -/
def putDirectory (node : Node) (names : List String) : Node :=
  alter (fun old => directory ((old.map Node.entries).getD [])) (some node) names

mutual

/-- The files of a tree with the names that lead to them, `names` leading to the tree itself. -/
def files (names : List String) : Node → List (List String × ByteArray)
  | file content => [(names, content)]
  | directory entries => filesAmong names entries

/-- The files of the entries of a directory. -/
def filesAmong (names : List String) : List (String × Node) → List (List String × ByteArray)
  | [] => []
  | (name, node) :: rest => files (names ++ [name]) node ++ filesAmong names rest

end

@[simp] theorem find?_nil (node : Node) : node.find? [] = some node := by simp [find?]

/-- A changed tree has the changed node where the change was made. -/
theorem find?_alter (change : Option Node → Node) (old : Option Node) (names : List String) :
    (alter change old names).find? names = some (change (old.bind (·.find? names))) := by
  induction names generalizing old with
  | nil => cases old <;> simp [alter, find?]
  | cons name rest ih =>
    rw [alter, find?]
    simp only [entries, lookup_replaceEntry, if_true, Option.bind_some, ih]
    cases old <;> simp [find?]

/-- A file that was put into a tree is found there. -/
theorem find?_putFile (node : Node) (names : List String) (content : ByteArray) :
    (node.putFile names content).find? names = some (.file content) :=
  find?_alter ..

end Node

/-- A tree and the names that lead to the working directory. -/
structure FileSystem where
  root : Node
  working : List String

namespace FileSystem

/-- Goes on from a directory by one segment of a path. -/
def enter (fs : FileSystem) (here : List String) (segment : String) :
    Except FileError (List String) :=
  match fs.root.find? here with
  | none => .error .notFound
  | some (.file _) => .error .notADirectory
  | some (.directory entries) =>
      if Path.isIdle segment then .ok here
      else if segment = ".." then .ok here.dropLast
      else if longestName < segment.utf8ByteSize then .error .nameTooLong
      else if (entries.lookup segment).isSome then .ok (here ++ [segment])
      else .error .notFound

/-- Where a path starts. -/
def start (fs : FileSystem) (p : Path) : List String :=
  if p.isAbsolute then [] else fs.working

/-- The names from the root to which a path leads. -/
def locate (fs : FileSystem) (p : Path) : Except FileError (List String) :=
  match p.fault? with
  | some error => .error error
  | none => p.segments.foldlM fs.enter (fs.start p)

/-- What there is at a path. -/
def nodeAt (fs : FileSystem) (p : Path) : Except FileError Node := do
  let names ← fs.locate p
  match fs.root.find? names with
  | some node => return node
  | none => .error .notFound

/-- The bytes of the file at a path. -/
def read (fs : FileSystem) (p : Path) : Except FileError ByteArray := do
  match ← fs.nodeAt p with
  | .file content => return content
  | .directory _ => .error .isADirectory

/-- The text of the file at a path. -/
def readText (fs : FileSystem) (p : Path) : Except FileError String := do
  match String.fromUTF8? (← fs.read p) with
  | some text => return text
  | none => .error .notText

/-- The names of the place where a path would create a file: a proper name in a directory that
exists. -/
def locateNew (fs : FileSystem) (p : Path) : Except FileError (List String) :=
  match p.segments.getLast? with
  | none => .error .notFound
  | some name =>
      if Path.isIdle name ∨ name = ".." then .error .notFound
      else do
        let parent ← p.segments.dropLast.foldlM fs.enter (fs.start p)
        return parent ++ [name]

/-- The file system with the content of the file at a path replaced, or with a new file
there. -/
def write (fs : FileSystem) (p : Path) (content : ByteArray) : Except FileError FileSystem :=
  match fs.nodeAt p with
  | .ok (.directory _) => .error .isADirectory
  | .ok (.file _) => do
      let names ← fs.locate p
      return { fs with root := fs.root.putFile names content }
  -- Only a path that leads nowhere can name a new file; any other keeps its error.
  | .error .notFound => do
      let names ← fs.locateNew p
      return { fs with root := fs.root.putFile names content }
  | .error error => .error error

/-- The names to which a segment leads on from others, in a file system that lacks no
directory. -/
def advance (names : List String) (segment : String) : List String :=
  if Path.isIdle segment then names
  else if segment = ".." then names.dropLast
  else names ++ [segment]

/-- The tree in which the segments can be gone through one after the other from a list of names:
every directory on the way is made if it is missing, also one that the way leaves again by
`..`. -/
def paved (node : Node) (names : List String) : List String → Node
  | [] => node
  | segment :: rest =>
      paved (node.putDirectory (advance names segment)) (advance names segment) rest

/-- The file system with a directory at a path and every directory on the way. -/
def putDirectory (fs : FileSystem) (p : Path) : FileSystem :=
  { fs with root := paved fs.root (fs.start p) p.segments }

/-- The file system with a file at a path and every directory on the way. -/
def putFile (fs : FileSystem) (p : Path) (content : ByteArray) : FileSystem :=
  let way := paved fs.root (fs.start p) p.segments.dropLast
  { fs with root := way.putFile (p.segments.foldl advance (fs.start p)) content }

/-- The files that were not there in an earlier file system or had another content, by their
names from the root. -/
def changesSince (fs earlier : FileSystem) : List (List String × ByteArray) :=
  (fs.root.files []).filter fun (names, content) =>
    match earlier.root.find? names with
    | some (.file old) => old != content
    | _ => true

end FileSystem

end GoldenRom

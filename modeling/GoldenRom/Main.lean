import GoldenRom.CommandLine.Program

/-!
# The executable

The program is a function of the file system that it finds, so the executable takes a picture of
the part of the disk that a command line can make the program look at, applies the function, and
carries out what has changed.

## Main definitions

* `pictureAt`: a directory tree, as far as a suite looks at it.
* `survey`: a picture enlarged by what one path leads to.
* `main`: the picture, the program, the changes and the outputs.
-/

namespace GoldenRom

/-- Where a list of names leads on the disk. -/
def placeOf (names : List String) : String :=
  "/" ++ "/".intercalate names

/-- Whether a file of a directory is a test or a baseline; no suite looks into any other. -/
def isSuiteFile (name : String) : Bool :=
  let extension := (Path.mk name).extension?
  extension == some testExtension || extension == some baselineExtension

/-- The tree at a directory of the disk.  Files that no suite looks into are there without their
content. -/
partial def pictureAt (names : List String) : IO Node := do
  let here ← IO.currentDir
  let mut entries : List (String × Node) := []
  for entry in ← (here / placeOf names).readDir do
    if ← entry.path.isDir then
      entries := (entry.fileName, ← pictureAt (names ++ [entry.fileName])) :: entries
    else
      let content ←
        if isSuiteFile entry.fileName then IO.FS.readBinFile entry.path
        else pure ByteArray.empty
      entries := (entry.fileName, .file content) :: entries
  return .directory entries

/-- A picture enlarged by what the remaining segments of a path lead to from a directory that is
in it.  The tree below a directory is taken over whole if `deep` is set. -/
def survey (deep : Bool) (picture : Node) (names : List String) : List String → IO Node
  | [] => do
      if deep then
        let node ← pictureAt names
        return Node.alter (fun _ => node) (some picture) names
      else
        return picture
  | segment :: rest => do
      if Path.isIdle segment then
        survey deep picture names rest
      else if segment = ".." then
        survey deep picture names.dropLast rest
      else
        let here ← IO.currentDir
        let next := names ++ [segment]
        let place := here / placeOf next
        if ← place.isDir then
          survey deep (picture.putDirectory next) next rest
        else if ← place.pathExists then
          return picture.putFile next (← IO.FS.readBinFile place)
        else
          return picture

/-- The paths that a command makes the program look at, with whether the tree below them
counts. -/
def Command.looksAt : Command → List (Bool × Path)
  | run path _ => [(false, path)]
  | test _ searchPaths => searchPaths.flatMap fun path => [(true, path), (false, path.baseline)]

/-- The file system as far as a command line makes the program look at it. -/
def pictureFor (arguments : List String) : IO FileSystem := do
  let working := (← IO.currentDir).components.filter fun name =>
    !Path.isIdle name && name != "/"
  let mut picture := (Node.directory []).putDirectory working
  match Invocation.ofArguments? arguments with
  | none => return { root := picture, working }
  | some invocation =>
      for (deep, path) in invocation.command.looksAt do
        picture ← survey deep picture (if path.isAbsolute then [] else working) path.segments
      return { root := picture, working }

end GoldenRom

open GoldenRom in
/-- Runs the program on the disk. -/
def main (arguments : List String) : IO UInt32 := do
  let before ← pictureFor arguments
  let result := runProgram arguments before
  for (names, content) in result.fileSystem.changesSince before do
    IO.FS.writeBinFile (placeOf names) content
  IO.print result.stdout
  IO.eprint result.stderr
  return result.exitCode.toUInt32

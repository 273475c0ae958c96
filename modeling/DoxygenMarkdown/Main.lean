import DoxygenMarkdown.Batch
import DoxygenMarkdown.FileTree

/-!
# The program

`DoxygenMarkdown.Batch` says what the command does to a tree of files. Here the tree comes from the
disk and goes back to it: what the path of the command leads to is read (`loadTree`), and the files
that the command has changed are written (`storeTree`). All else is printing.
-/

namespace DoxygenMarkdown.Program

/-- How the command is called. -/
def usage : String :=
  "usage: [-h] [--ext EXT [EXT ...]] [--dry-run] [--backup] [--keep-indent] path"

/-- Read what a path leads to into a tree, with all that lies below it. -/
partial def loadTree (tree : FileTree) (path : String) : IO FileTree := do
  let place := (← IO.currentDir) / path
  if ← place.isDir then
    let mut loaded := tree.installFolder path.toList
    for entry in ← place.readDir do
      loaded ← loadTree loaded (path ++ "/" ++ entry.fileName)
    return loaded
  else if ← place.pathExists then
    return tree.install path.toList (← IO.FS.readBinFile place).toList
  else return tree

/-- Write the files of a tree whose content differs from the one before. -/
def storeTree (before after : FileTree) : IO Unit := do
  for (location, bytes) in after.files do
    if before.fileAt? location ≠ some bytes then
      IO.FS.writeBinFile (String.ofList location.path) bytes.toByteArray

/-- Carry out the command that arguments ask for, on the files of the disk. -/
def execute (options : Batch.Options) : IO UInt32 := do
  let here := (Path.names (← IO.currentDir).toString.toList).foldl Location.step []
  let path := String.ofList options.path
  let tree := FileTree.makeFolder ⟨here, [], []⟩ here
  let tree ← loadTree (← loadTree tree path) (path ++ ".bak")
  let outcome := Batch.run tree options
  storeTree tree outcome.tree
  match outcome.report with
  | .ok report =>
    IO.print (String.ofList report.output)
    IO.eprint (String.ofList report.errors)
    return report.exitCode.toUInt32
  | .error e =>
    IO.eprintln (String.ofList e.message)
    return 1

end DoxygenMarkdown.Program

/-- The command line. -/
def main (arguments : List String) : IO UInt32 := do
  match DoxygenMarkdown.Batch.readArguments (arguments.map String.toList) with
  | .ok options => DoxygenMarkdown.Program.execute options
  | .error refusal =>
    let usage := DoxygenMarkdown.Program.usage
    if refusal = .help then IO.println usage else IO.eprintln usage
    return refusal.exitCode.toUInt32

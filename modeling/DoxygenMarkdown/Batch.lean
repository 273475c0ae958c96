import DoxygenMarkdown.Batch.Arguments
import DoxygenMarkdown.Batch.File
import DoxygenMarkdown.FileTree.Path
import DoxygenMarkdown.Text.LetterCase

/-!
# The command

The command converts one file, or all files below a folder whose names have one of the wanted
endings. It says which files changed, and which comments it could not read; a comment that cannot
be read makes it fail in the end, but keeps no other from being converted. A file that cannot be
read or written stops it.
-/

namespace DoxygenMarkdown.Batch

/-- A file ending, with the dot that may have been left out. -/
def dotted (ending : Text) : Text :=
  if ending.startsWith ['.'] then ending else '.' :: ending

/-- Whether the ending of a file name, in small letters, is one of the wanted ones. -/
def isWanted (extensions : List Text) (name : Text) : Bool :=
  (extensions.map dotted).contains (Path.extension name).lower

/-- The path to a file below a folder. -/
def pathBelow (path : Text) (l : Location) : Text := Path.join path (List.intercalate ['/'] l)

section Selection

variable {σ ε : Type} [Disk σ ε]

/-- The paths of the files to convert, in order, if the path leads anywhere. -/
def selectedFiles (disk : σ) (options : Options) : Option (List Text) :=
  if Disk.isFile disk options.path then some [options.path]
  else if Disk.isFolder disk options.path then
    let wanted := (Disk.below disk options.path).walk.filter fun l =>
      isWanted options.extensions (l.getLastD [])
    some (wanted.map (pathBelow options.path))
  else none

end Selection

/-- How the files are converted. -/
def Options.mode (options : Options) : Mode :=
  ⟨options.dryRun, options.backup, !options.keepIndent⟩

/-- A file that was gone through: what came up, and whether it changed, or would have. -/
structure Handled where
  path : Text
  events : List Bindings.Event
  changed : Bool
deriving DecidableEq, Repr

/-- What converting some files led to: the files afterwards, those that were gone through, in
order, and what stopped it, if something did, with what came up until then in the file where it
did. -/
structure Progress (σ ε : Type) where
  tree : σ
  handled : List Handled
  stopped : Option (List Bindings.Event × ε)

section Conversion

variable {σ ε : Type} [Disk σ ε]

/-- Convert files one after the other, up to the first that cannot be read or written. -/
def convertPaths (mode : Mode) (disk : σ) : List Text → Progress σ ε
  | [] => ⟨disk, [], none⟩
  | path :: paths =>
    let c := convertPath mode disk path
    match c.changed with
    | .error e => ⟨c.tree, [], some (c.events, e)⟩
    | .ok changed =>
      let rest := convertPaths mode c.tree paths
      { rest with handled := ⟨path, c.events, changed⟩ :: rest.handled }

end Conversion

/-- What the command says, and its exit status. -/
structure Report where
  exitCode : Nat
  output : Text
  errors : Text
deriving DecidableEq, Repr

/-- What the command led to. -/
structure Outcome (σ ε : Type) where
  tree : σ
  log : Log
  report : Except ε Report

/-- A line of output. -/
def line (parts : List Text) : Text := parts.flatten ++ ['\n']

/-- One line for each comment of a file that could not be read. -/
def errorLines (path : Text) (events : List Bindings.Event) : Text :=
  (events.filterMap Bindings.Event.error?).flatMap fun e =>
    line ["error: ".toList, path, ": ".toList, e.message]

/-- The line that tells of a file that changed. -/
def changeLine (dryRun : Bool) (path : Text) : Text :=
  line [if dryRun then "[dry-run] ".toList else [], "converted: ".toList, path]

/-- The last line, which counts the files. -/
def countLine (dryRun : Bool) (changed total : Nat) : Text :=
  line ["\n".toList, (toString changed).toList, "/".toList, (toString total).toList,
    " files ".toList, if dryRun then "would be ".toList else [], "modified".toList]

/-- What the command says after all files were gone through. -/
def report (dryRun : Bool) (handled : List Handled) : Report :=
  let changed := handled.filter (·.changed)
  { exitCode := if handled.any fun h => h.events.any (·.error?.isSome) then 1 else 0
    output := changed.flatMap (fun h => changeLine dryRun h.path) ++
      countLine dryRun changed.length handled.length
    errors := handled.flatMap fun h => errorLines h.path h.events }

section Command

variable {σ ε : Type} [Disk σ ε]

/-- Carry out the command. It tells of the comments that it could not read by itself, so they are
not logged. -/
def run (disk : σ) (options : Options) : Outcome σ ε :=
  match selectedFiles disk options with
  | none => ⟨disk, [], .ok ⟨1, [], line ["error: ".toList, options.path, " not found".toList]⟩⟩
  | some paths =>
    let progress := convertPaths options.mode disk paths
    let log := progress.handled.flatMap fun h => Bindings.logOf true h.events
    match progress.stopped with
    | none => ⟨progress.tree, log, .ok (report options.dryRun progress.handled)⟩
    | some (events, e) => ⟨progress.tree, log ++ Bindings.logOf true events, .error e⟩

/-- Carry out the command that arguments ask for. -/
def command (disk : σ) (arguments : List Text) : Except Refusal (Outcome σ ε) :=
  run disk <$> readArguments arguments

end Command

end DoxygenMarkdown.Batch

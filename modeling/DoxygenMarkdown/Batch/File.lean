import DoxygenMarkdown.Bindings.Conversion
import DoxygenMarkdown.Disk
import DoxygenMarkdown.Text.Utf8

/-!
# Converting a file

A file of bindings is read as UTF-8, whatever its bytes are, converted, and written back if that
changed anything. A trial run writes nothing. A backup is a copy of the file as it was, byte for
byte, made before the file is written.

Reading, making the backup and writing may fail, each for itself. What came up until then, and what
was done to the disk, stays: so a backup does if the file cannot be written after it was made.
-/

namespace DoxygenMarkdown.Batch

/-- How files are converted. -/
structure Mode where
  dryRun : Bool := false
  backup : Bool := false
  trimLines : Bool := true
deriving DecidableEq, Repr

/-- What converting a file led to: the files afterwards, what came up, and whether the file
changed, or would have. -/
structure FileConversion (σ ε : Type) where
  tree : σ
  events : List Bindings.Event
  changed : Except ε Bool

/-- The text of a file. -/
def textOf (bytes : Bytes) : Text := Text.unifyBreaks (Utf8.decode bytes)

/-- Where the backup of a file is kept. -/
def backupPath (path : Text) : Text := path ++ ".bak".toList

variable {σ ε : Type} [Disk σ ε]

/-- Make the backup of a file if one is wanted. -/
def makeBackup (disk : σ) (path : Text) (backup : Bool) : σ × Except ε Unit :=
  if backup then Disk.copy disk path (backupPath path) else (disk, .ok ())

/-- Write a text back to the file that it came from, behind its backup. -/
def writeBack (disk : σ) (path : Text) (backup : Bool) (t : Text) : σ × Except ε Unit :=
  match makeBackup disk path backup with
  | (disk, .error e) => (disk, .error e)
  | (disk, .ok ()) => Disk.write disk path (Utf8.encode t)

/-- Convert a file. -/
def convertPath (mode : Mode) (disk : σ) (path : Text) : FileConversion σ ε :=
  match Disk.read disk path with
  | .error e => ⟨disk, [], .error e⟩
  | .ok bytes =>
    let before := textOf bytes
    let converted := Bindings.convert mode.trimLines before
    if converted.text = before then ⟨disk, converted.events, .ok false⟩
    else if mode.dryRun then ⟨disk, converted.events, .ok true⟩
    else
      match writeBack disk path mode.backup converted.text with
      | (disk, .error e) => ⟨disk, converted.events, .error e⟩
      | (disk, .ok ()) => ⟨disk, converted.events, .ok true⟩

end DoxygenMarkdown.Batch

import DoxygenMarkdown.Disk.Listing

/-!
# Disks

What a program can do with a disk: ask where a path leads, look below a folder, and read, copy and
write files. Each of these may fail, for reasons of the disk, and with an error of the disk. What
copying and writing did before they failed stays done, so they always give the disk afterwards.

Programs are written for every disk. One that is a value in memory is `FileTree`.
-/

namespace DoxygenMarkdown

/-- The content of a file. -/
abbrev Bytes := List UInt8

/-- A disk, whose states are of type `σ`, and whose errors are of type `ε`. -/
class Disk (σ : Type) (ε : outParam Type) where
  /-- Whether a path leads to a file. -/
  isFile : σ → (path : Text) → Bool
  /-- Whether a path leads to a folder. -/
  isFolder : σ → (path : Text) → Bool
  /-- What can be seen below the folder that a path leads to. -/
  below : σ → (path : Text) → Listing
  /-- Read a file. -/
  read : σ → (path : Text) → Except ε Bytes
  /-- Copy a file. -/
  copy : σ → (source target : Text) → σ × Except ε Unit
  /-- Write a file, which is made if there is none. -/
  write : σ → (path : Text) → Bytes → σ × Except ε Unit

end DoxygenMarkdown

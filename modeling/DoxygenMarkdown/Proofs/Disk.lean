import DoxygenMarkdown.Disk

/-!
# The laws of a disk

What is on a disk is more than what a program sees of it. A path leads to a *place*, where there may
be a file, whether it can be read or not (`Disk.View`). Paths that lead to one file, say by a link,
lead to one place, so places tell files apart where paths do not.

A disk is lawful (`LawfulDisk`) if its operations do what they are for and no more. The laws say
nothing about when an operation fails, and little about what it leaves behind then: a file that
cannot be written to its end may hold anything, and no other file is touched. They are about files
and folders. Entries of other kinds, like pipes, may be listed, but do not read as files.
-/

namespace DoxygenMarkdown

/-- What there is on a disk, apart from what a program can see of it. -/
class Disk.View (σ : Type) (ι : outParam Type) where
  /-- The place that a path leads to, where there may be a file, a folder or nothing. -/
  place? : σ → (path : Text) → Option ι
  /-- The content of the file at a place. -/
  fileAt? : σ → ι → Option Bytes

open Disk.View (place? fileAt?)

variable {σ ι ε : Type} [Disk σ ε] [Disk.View σ ι]

namespace Disk

/-- A path leads to a file with some content. -/
def Holds (disk : σ) (path : Text) (bytes : Bytes) : Prop :=
  ∃ l, place? disk path = some l ∧ fileAt? disk l = some bytes

/-- Nothing differs but what there is at some places. -/
structure ChangesOnly (disk disk' : σ) (places : ι → Prop) : Prop where
  place?_eq : ∀ p, place? disk' p = place? disk p
  isFolder_eq : ∀ p, Disk.isFolder disk' p = Disk.isFolder disk p
  fileAt?_eq : ∀ l, ¬ places l → fileAt? disk' l = fileAt? disk l
  read_eq : ∀ p l, place? disk p = some l → ¬ places l → Disk.read disk' p = Disk.read disk p

end Disk

/-- A disk whose operations do what they are for. -/
class LawfulDisk (σ : Type) {ι ε : outParam Type} [Disk σ ε] [Disk.View σ ι] : Prop where
  /-- What is read is the content of a file. -/
  read_ok (disk : σ) {p : Text} {bytes : Bytes} (h : Disk.read disk p = .ok bytes) :
    Disk.Holds disk p bytes
  copy_frame (disk : σ) (source : Text) {target : Text} (h : Disk.isFolder disk target = false) :
    Disk.ChangesOnly disk (Disk.copy disk source target).1 (place? disk target = some ·)
  /-- A copy leaves its source as it is, even if it is the target. -/
  copy_source (disk : σ) {source target : Text} (h : Disk.isFolder disk target = false) {l : ι}
    (hl : place? disk source = some l) :
    fileAt? (Disk.copy disk source target).1 l = fileAt? disk l
  copy_ok (disk : σ) {source target : Text} {bytes : Bytes}
    (h : Disk.isFolder disk target = false) (hread : Disk.read disk source = .ok bytes)
    (hcopy : (Disk.copy disk source target).2 = .ok ()) :
    Disk.Holds (Disk.copy disk source target).1 target bytes
  /-- A file is not copied to itself, so a copy beside it is another file. -/
  copy_apart (disk : σ) {source ending : Text} {bytes : Bytes} (hne : ending ≠ [])
    (hslash : '/' ∉ ending) (hread : Disk.read disk source = .ok bytes)
    (hcopy : (Disk.copy disk source (source ++ ending)).2 = .ok ()) :
    place? disk (source ++ ending) ≠ place? disk source
  write_frame (disk : σ) (p : Text) (bytes : Bytes) :
    Disk.ChangesOnly disk (Disk.write disk p bytes).1 (place? disk p = some ·)
  write_ok (disk : σ) {p : Text} {bytes : Bytes} (h : (Disk.write disk p bytes).2 = .ok ()) :
    Disk.Holds (Disk.write disk p bytes).1 p bytes

namespace Disk.ChangesOnly

variable {disk disk' disk'' : σ} {places places' : ι → Prop}

theorem refl (disk : σ) (places : ι → Prop) : ChangesOnly disk disk places :=
  ⟨fun _ => rfl, fun _ => rfl, fun _ _ => rfl, fun _ _ _ _ => rfl⟩

/-- What changes only some places changes only more of them. -/
theorem mono (h : ChangesOnly disk disk' places) (himp : ∀ l, places l → places' l) :
    ChangesOnly disk disk' places' where
  place?_eq := h.place?_eq
  isFolder_eq := h.isFolder_eq
  fileAt?_eq l hl := h.fileAt?_eq l fun hplace => hl (himp l hplace)
  read_eq p l hp hl := h.read_eq p l hp fun hplace => hl (himp l hplace)

/-- One change after another. -/
theorem trans (h : ChangesOnly disk disk' places) (h' : ChangesOnly disk' disk'' places) :
    ChangesOnly disk disk'' places where
  place?_eq p := (h'.place?_eq p).trans (h.place?_eq p)
  isFolder_eq p := (h'.isFolder_eq p).trans (h.isFolder_eq p)
  fileAt?_eq l hl := (h'.fileAt?_eq l hl).trans (h.fileAt?_eq l hl)
  read_eq p l hp hl :=
    (h'.read_eq p l ((h.place?_eq p).trans hp) hl).trans (h.read_eq p l hp hl)

/-- What a path leads to stays if it is not changed. -/
theorem holds (h : ChangesOnly disk disk' places) {p : Text} {bytes : Bytes}
    (hp : Disk.Holds disk p bytes) (hplaces : ∀ l, place? disk p = some l → ¬ places l) :
    Disk.Holds disk' p bytes := by
  obtain ⟨l, hl, hfile⟩ := hp
  exact ⟨l, (h.place?_eq p).trans hl, (h.fileAt?_eq l (hplaces l hl)).trans hfile⟩

end Disk.ChangesOnly

end DoxygenMarkdown

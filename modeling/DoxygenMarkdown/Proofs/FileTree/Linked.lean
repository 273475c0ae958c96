import DoxygenMarkdown.Proofs.FileTree.Paths

/-!
# Trees with links and write protection

A tree of files is a friendly disk: what can be read can be written, and files are told apart by
their paths. Disks are not like that in general. In a `LinkedTree` a path may be a link, which leads
where another path leads, and files may be protected, so that they can be read and copied but not
written. It is a lawful disk too, so the laws allow for a write that fails behind a backup that was
made, and for a file that is met twice.
-/

namespace DoxygenMarkdown

/-- A tree of files in which some paths are links, and some files cannot be written. -/
structure LinkedTree where
  tree : FileTree
  /-- Each link with the path that it stands for. -/
  links : List (Text × Text) := []
  guarded : List Location := []

namespace LinkedTree

/-- Why something cannot be done. -/
inductive Failure where
  | file (e : FileError)
  | permission (path : Text)
  | sameFile (source target : Text)
deriving DecidableEq

/-- The path that a path stands for. -/
def target (t : LinkedTree) (p : Text) : Text := (t.links.lookup p).getD p

instance : Disk.View LinkedTree Location where
  place? t p := Disk.View.place? t.tree (t.target p)
  fileAt? t l := t.tree.fileAt? l

/-- Whether a path leads to a protected file. -/
def isGuarded (t : LinkedTree) (p : Text) : Bool :=
  (Disk.View.place? t p).any t.guarded.contains

/-- What becomes of the tree, and nothing of the links and the protection. -/
def lift (t : LinkedTree) (r : FileTree × Except FileError Unit) :
    LinkedTree × Except Failure Unit :=
  ({ t with tree := r.1 }, r.2.mapError .file)

instance : Disk LinkedTree Failure where
  isFile t p := Disk.isFile t.tree (t.target p)
  isFolder t p := Disk.isFolder t.tree (t.target p)
  below t p := Disk.below t.tree (t.target p)
  read t p := (Disk.read t.tree (t.target p)).mapError .file
  copy t source target :=
    if Disk.View.place? t source = Disk.View.place? t target then
      (t, .error (.sameFile source target))
    else if t.isGuarded target then (t, .error (.permission target))
    else t.lift (Disk.copy t.tree (t.target source) (t.target target))
  write t p bytes :=
    if t.isGuarded p then (t, .error (.permission p))
    else t.lift (Disk.write t.tree (t.target p) bytes)

variable {t : LinkedTree} {p : Text} {bytes : Bytes} {r : FileTree × Except FileError Unit}

/-- What is read is what the tree has where the links lead. -/
theorem read_eq_ok_iff :
    Disk.read t p = .ok bytes ↔ Disk.read t.tree (t.target p) = .ok bytes := by
  change (Disk.read t.tree (t.target p)).mapError Failure.file = .ok bytes ↔ _
  cases Disk.read t.tree (t.target p) with
  | error e => exact iff_of_false nofun nofun
  | ok content =>
    exact ⟨fun h => congrArg Except.ok (Except.ok.inj h),
      fun h => congrArg Except.ok (Except.ok.inj h)⟩

theorem snd_lift_eq_ok_iff : (t.lift r).2 = .ok () ↔ r.2 = .ok () := by
  rw [lift]
  cases r.2 with
  | error e => exact iff_of_false nofun nofun
  | ok u => exact iff_of_true rfl rfl

/-- What the tree does to some places is what the disk does to the paths that lead there. -/
theorem changesOnly_lift {places : Location → Prop} (h : Disk.ChangesOnly t.tree r.1 places) :
    Disk.ChangesOnly t (t.lift r).1 places where
  place?_eq q := h.place?_eq (t.target q)
  isFolder_eq q := h.isFolder_eq (t.target q)
  fileAt?_eq := h.fileAt?_eq
  read_eq q l hq hl := congrArg (Except.mapError Failure.file) (h.read_eq (t.target q) l hq hl)

instance : LawfulDisk LinkedTree where
  read_ok t p bytes h := LawfulDisk.read_ok t.tree (read_eq_ok_iff.1 h)
  copy_frame t source target h := by
    simp only [Disk.copy]
    split
    · exact Disk.ChangesOnly.refl t _
    split
    · exact Disk.ChangesOnly.refl t _
    · exact changesOnly_lift (LawfulDisk.copy_frame t.tree (t.target source) h)
  copy_source t source target h l hl := by
    simp only [Disk.copy]
    split
    · rfl
    split
    · rfl
    · exact LawfulDisk.copy_source t.tree h hl
  copy_ok t source target bytes h hread hcopy := by
    simp only [Disk.copy] at hcopy ⊢
    split at hcopy
    · cases hcopy
    split at hcopy
    · cases hcopy
    · next hsame hguarded =>
      rw [if_neg hsame, if_neg hguarded]
      exact LawfulDisk.copy_ok t.tree h (read_eq_ok_iff.1 hread) (snd_lift_eq_ok_iff.1 hcopy)
  copy_apart t source ending bytes _ _ _ hcopy heq := by
    simp only [Disk.copy] at hcopy
    rw [if_pos heq.symm] at hcopy
    cases hcopy
  write_frame t p bytes := by
    simp only [Disk.write]
    split
    · exact Disk.ChangesOnly.refl t _
    · exact changesOnly_lift (LawfulDisk.write_frame t.tree (t.target p) bytes)
  write_ok t p bytes h := by
    simp only [Disk.write] at h ⊢
    split at h
    · cases h
    · next hguarded =>
      rw [if_neg hguarded]
      exact LawfulDisk.write_ok t.tree (snd_lift_eq_ok_iff.1 h)

end LinkedTree

end DoxygenMarkdown

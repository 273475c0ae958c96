import DoxygenMarkdown.FileTree
import DoxygenMarkdown.Proofs.Disk

/-!
# What writing leaves as it was

Where a path leads depends on the folders only (`SameFolders.locate_eq_ok_iff`), so writing and
copying files changes nothing about it. Both put a content where a path leads
(`write_eq_ok_iff`, `copy_eq_ok_iff`), and change nothing else (`changesOnly_put`). So a tree is a
lawful disk.
-/

namespace DoxygenMarkdown.FileTree

variable {t : FileTree} {p : Text} {l m : Location} {bytes : Bytes}

/-! ## Where paths lead -/

/-- A path leads on from a folder only, and only by a name that is not too long. -/
theorem follow_cons_eq_ok_iff {name : Text} {names : List Text} :
    t.follow m (name :: names) = .ok l ↔
      t.isFolderAt m = true ∧ Location.isOverlong name = false ∧
        t.follow (m.step name) names = .ok l := by
  rw [follow]
  split
  · next hfolder =>
    split
    · next hlong => exact iff_of_false nofun fun h => by rw [h.2.1] at hlong; cases hlong
    · next hlong => exact ⟨fun h => ⟨hfolder, Bool.eq_false_iff.2 hlong, h⟩, fun h => h.2.2⟩
  · next hfolder =>
    refine iff_of_false ?_ fun h => hfolder h.1
    split <;> nofun

/-- Names are followed one after the other. -/
theorem follow_append_eq_ok_iff {names more : List Text} :
    t.follow m (names ++ more) = .ok l ↔
      ∃ k, t.follow m names = .ok k ∧ t.follow k more = .ok l := by
  induction names generalizing m with
  | nil =>
    refine ⟨fun h => ⟨m, rfl, h⟩, fun ⟨k, hk, h⟩ => ?_⟩
    obtain rfl : m = k := Except.ok.inj hk
    exact h
  | cons name names ih =>
    rw [List.cons_append, follow_cons_eq_ok_iff, ih]
    constructor
    · rintro ⟨hfolder, hlong, k, hk, h⟩
      exact ⟨k, follow_cons_eq_ok_iff.2 ⟨hfolder, hlong, hk⟩, h⟩
    · rintro ⟨k, hk, h⟩
      obtain ⟨hfolder, hlong, hk⟩ := follow_cons_eq_ok_iff.1 hk
      exact ⟨hfolder, hlong, k, hk, h⟩

/-- A path leads somewhere if its names do, one after the other. -/
theorem locate_eq_ok_iff :
    t.locate p = .ok l ↔
      '\x00' ∉ p ∧ p ≠ [] ∧ t.follow (t.start p) (Path.names p) = .ok l := by
  rw [locate]
  by_cases hnull : p.contains '\x00' = true
  · rw [if_pos hnull]
    exact iff_of_false nofun fun h => h.1 (by simpa using hnull)
  · rw [if_neg hnull]
    by_cases hempty : p.isEmpty = true
    · rw [if_pos hempty]
      exact iff_of_false nofun fun h => h.2.1 (List.isEmpty_iff.1 hempty)
    · rw [if_neg hempty]
      have hnull' : '\x00' ∉ p := by simpa using hnull
      have hempty' : p ≠ [] := fun h => hempty (List.isEmpty_iff.2 h)
      cases t.follow (t.start p) (Path.names p) with
      | error cause => exact iff_of_false nofun fun h => nomatch h.2.2
      | ok m =>
        exact ⟨fun h => ⟨hnull', hempty', congrArg Except.ok (Except.ok.inj h)⟩,
          fun h => congrArg Except.ok (Except.ok.inj h.2.2)⟩

theorem isFolder_eq_true_iff :
    t.isFolder p = true ↔ ∃ l, t.locate p = .ok l ∧ t.isFolderAt l = true := by
  rw [isFolder]
  cases t.locate p with
  | error e => exact iff_of_false nofun fun ⟨_, h, _⟩ => nomatch h
  | ok l =>
    refine ⟨fun h => ⟨l, rfl, h⟩, ?_⟩
    rintro ⟨m, hm, h⟩
    rwa [Except.ok.inj hm]

/-- Trees that differ in their files only. -/
structure SameFolders (t t' : FileTree) : Prop where
  here : t'.here = t.here
  folders : t'.folders = t.folders

theorem SameFolders.refl (t : FileTree) : SameFolders t t := ⟨rfl, rfl⟩

theorem sameFolders_put (t : FileTree) (l : Location) (bytes : Bytes) :
    SameFolders t (t.put l bytes) := ⟨rfl, rfl⟩

theorem SameFolders.isFolderAt_eq {t' : FileTree} (h : SameFolders t t') (l : Location) :
    t'.isFolderAt l = t.isFolderAt l := by
  rw [isFolderAt, isFolderAt, h.folders]

/-- Where a path leads does not depend on the files. -/
theorem SameFolders.locate_eq_ok_iff {t' : FileTree} (h : SameFolders t t') :
    t'.locate p = .ok l ↔ t.locate p = .ok l := by
  have hfollow (names : List Text) (m : Location) :
      t'.follow m names = .ok l ↔ t.follow m names = .ok l := by
    induction names generalizing m with
    | nil => exact Iff.rfl
    | cons name names ih => rw [follow_cons_eq_ok_iff, follow_cons_eq_ok_iff, h.isFolderAt_eq, ih]
  have hstart : t'.start p = t.start p := by rw [start, start, h.here]
  rw [FileTree.locate_eq_ok_iff, FileTree.locate_eq_ok_iff, hfollow, hstart]

theorem SameFolders.isFolder_eq {t' : FileTree} (h : SameFolders t t') (p : Text) :
    t'.isFolder p = t.isFolder p := by
  rw [Bool.eq_iff_iff, isFolder_eq_true_iff, isFolder_eq_true_iff]
  exact exists_congr fun l => and_congr h.locate_eq_ok_iff (by rw [h.isFolderAt_eq])

/-- Writing a file does not change where paths lead. -/
theorem locate_put (h : t.locate p = .ok l) (m : Location) (bytes : Bytes) :
    (t.put m bytes).locate p = .ok l := (sameFolders_put t m bytes).locate_eq_ok_iff.2 h

/-! ## Files -/

/-- What is found: a file where the path leads, and no folder. -/
theorem find_eq_ok_iff :
    t.find p = .ok (l, bytes) ↔
      t.locate p = .ok l ∧ t.isFolderAt l = false ∧ t.fileAt? l = some bytes := by
  rw [find]
  cases hl : t.locate p with
  | error e => exact iff_of_false nofun nofun
  | ok m =>
    change (if t.isFolderAt m then _ else _) = _ ↔ _
    rw [Except.ok.injEq]
    by_cases hfolder : t.isFolderAt m = true
    · rw [if_pos hfolder]
      refine iff_of_false nofun fun h => ?_
      rw [h.1, h.2.1] at hfolder
      cases hfolder
    · rw [if_neg hfolder, Bool.not_eq_true] at *
      cases hfile : t.fileAt? m with
      | none =>
        refine iff_of_false nofun fun h => ?_
        rw [h.1, h.2.2] at hfile
        cases hfile
      | some content =>
        rw [Except.ok.injEq, Prod.mk.injEq]
        constructor
        · rintro ⟨rfl, rfl⟩
          exact ⟨rfl, hfolder, hfile⟩
        · rintro ⟨rfl, -, h⟩
          exact ⟨rfl, Option.some.inj (hfile.symm.trans h)⟩

theorem read_of_find (h : t.find p = .ok (l, bytes)) : t.read p = .ok bytes := by
  rw [read, h]
  rfl

/-- What is read is found somewhere. -/
theorem exists_find_of_read (h : t.read p = .ok bytes) :
    ∃ l, t.find p = .ok (l, bytes) := by
  rw [read] at h
  rcases hfind : t.find p with e | ⟨l, bytes'⟩
  · rw [hfind] at h
    cases h
  · rw [hfind] at h
    exact ⟨l, congrArg (fun b => Except.ok (l, b)) (Except.ok.inj h)⟩

/-- What a path leads to is found as long as it stays. -/
theorem SameFolders.find_eq {t' : FileTree} (h : SameFolders t t') (hl : t.locate p = .ok l)
    (hfile : t'.fileAt? l = t.fileAt? l) : t'.find p = t.find p := by
  rw [find, find, hl, h.locate_eq_ok_iff.2 hl]
  simp only [bind, Except.bind, h.isFolderAt_eq, hfile]

/-- A file that is the same in a tree with the same folders is read as the same. -/
theorem SameFolders.read_eq {t' : FileTree} (h : SameFolders t t') (hl : t.locate p = .ok l)
    (hfile : t'.fileAt? l = t.fileAt? l) : t'.read p = t.read p := by
  rw [read, read, h.find_eq hl hfile]

/-- What is written is put where the path leads, unless there is a folder. -/
theorem write_eq_ok_iff {t' : FileTree} :
    t.write p bytes = .ok t' ↔
      ∃ l, t.locate p = .ok l ∧ t.isFolderAt l = false ∧ t' = t.put l bytes := by
  rw [write]
  cases hl : t.locate p with
  | error e => exact iff_of_false nofun fun ⟨_, h, _⟩ => nomatch h
  | ok l =>
    change (if t.isFolderAt l then _ else _) = _ ↔ _
    split
    · next hfolder =>
      refine iff_of_false nofun ?_
      rintro ⟨m, hm, hnot, -⟩
      rw [Except.ok.inj hm, hnot] at hfolder
      cases hfolder
    · next hfolder =>
      constructor
      · intro h
        exact ⟨l, rfl, Bool.eq_false_iff.2 hfolder, (Except.ok.inj h).symm⟩
      · rintro ⟨m, hm, -, rfl⟩
        rw [Except.ok.inj hm]

/-- A copy to where there is no folder is what is read, written. -/
theorem copy_eq_ok_iff {t' : FileTree} {target : Text} (h : t.isFolder target = false) :
    t.copy p target = .ok t' ↔
      ∃ bytes l, t.read p = .ok bytes ∧ t.locate target = .ok l ∧ t.isFolderAt l = false ∧
        t' = t.put l bytes := by
  rw [copy, h]
  cases t.read p with
  | error e => exact iff_of_false nofun fun ⟨_, _, h, _⟩ => nomatch h
  | ok bytes =>
    refine Iff.trans write_eq_ok_iff ⟨?_, ?_⟩
    · rintro ⟨l, hl⟩
      exact ⟨bytes, l, rfl, hl⟩
    · rintro ⟨bytes', l, hbytes, hl⟩
      obtain rfl := Except.ok.inj hbytes
      exact ⟨l, hl⟩

/-! ## A tree as a disk -/

instance : Disk.View FileTree Location where
  place? t p := (t.locate p).toOption
  fileAt? := fileAt?

theorem place?_eq_some_iff : Disk.View.place? t p = some l ↔ t.locate p = .ok l := by
  change (t.locate p).toOption = some l ↔ _
  cases t.locate p with
  | error e => exact iff_of_false nofun nofun
  | ok m => exact Option.some_inj.trans (Except.ok.injEq m l ▸ Iff.rfl)

/-- To put a file where a path leads changes that file only. -/
theorem changesOnly_put (h : t.locate p = .ok l) (bytes : Bytes) :
    Disk.ChangesOnly t (t.put l bytes) (Disk.View.place? t p = some ·) := by
  have hsame := sameFolders_put t l bytes
  have hother {m : Location} (hm : ¬ Disk.View.place? t p = some m) :
      (t.put l bytes).fileAt? m = t.fileAt? m := by
    rw [place?_eq_some_iff, h, Except.ok.injEq] at hm
    rw [fileAt?_put, if_neg (Ne.symm hm)]
  refine ⟨fun q => ?_, fun q => ?_, fun m hm => hother hm, fun q m hq hm => ?_⟩
  · refine Option.ext fun m => ?_
    rw [place?_eq_some_iff, place?_eq_some_iff, hsame.locate_eq_ok_iff]
  · change (t.put l bytes).isFolder q = t.isFolder q
    rw [hsame.isFolder_eq]
  · exact hsame.read_eq (place?_eq_some_iff.1 hq) (hother hm)

/-- What was put where a path leads is there. -/
theorem holds_put (h : t.locate p = .ok l) (bytes : Bytes) :
    Disk.Holds (t.put l bytes) p bytes :=
  ⟨l, place?_eq_some_iff.2 (locate_put h l bytes), (fileAt?_put t l l bytes).trans (if_pos rfl)⟩

end DoxygenMarkdown.FileTree

import DoxygenMarkdown.Proofs.Batch.Endings
import DoxygenMarkdown.Proofs.Batch.Progress

/-!
# The files that are selected

The paths that the command selects are different ones (`nodup_selection`). Some of the files are
written, and so may their backups be (`targets`). If no other path leads to where one of these is
written (`HasNoLinks`), and if no backup is in the way of a selected file (`HasRoom`), then no
selected file is in the way of another (`pairwise_apart`).

A proper tree has no links (`hasNoLinks_of_isProper`): a path to where the backup of a selected file
is kept is the path of that file with the ending behind it, if it is selected at all.
-/

namespace DoxygenMarkdown.Batch

open Disk.View (place? fileAt?)

section Paths

variable {σ ε : Type} [Disk σ ε]

/-- The paths that are selected, none if nothing is found. -/
def selection (disk : σ) (o : Options) : List Text := (selectedFiles disk o).getD []

/-- The paths of the files that are written: those whose text changes, and their backups. -/
def targets (disk : σ) (o : Options) : List Text :=
  let changed := (selection disk o).filter (IsChanged (!o.keepIndent) disk)
  changed ++ if o.backup then changed.map backupPath else []

/-- No backup is in the way of a selected file, or where there is a folder. -/
def HasRoom (disk : σ) (o : Options) : Prop :=
  ∀ p ∈ selection disk o,
    backupPath p ∉ selection disk o ∧ Disk.isFolder disk (backupPath p) = false

variable {disk : σ} {o : Options} {p : Text}

/-- A target is a selected file that changes, or the backup of one. -/
theorem mem_targets_iff :
    p ∈ targets disk o ↔ ∃ q ∈ selection disk o, IsChanged (!o.keepIndent) disk q ∧
      (p = q ∨ o.backup = true ∧ p = backupPath q) := by
  simp only [targets, List.mem_append]
  cases o.backup with
  | false => simp
  | true =>
    simp only [if_true, List.mem_map, List.mem_filter, decide_eq_true_iff]
    constructor
    · rintro (⟨hp, hchanged⟩ | ⟨q, ⟨hq, hchanged⟩, rfl⟩)
      · exact ⟨p, hp, hchanged, .inl rfl⟩
      · exact ⟨q, hq, hchanged, .inr ⟨trivial, rfl⟩⟩
    · rintro ⟨q, hq, hchanged, rfl | ⟨-, rfl⟩⟩
      · exact .inl ⟨hq, hchanged⟩
      · exact .inr ⟨q, ⟨hq, hchanged⟩, rfl⟩

theorem backupPath_inj {p q : Text} (h : backupPath p = backupPath q) : p = q :=
  List.append_cancel_right h

/-- No path is selected twice. -/
theorem nodup_selection (h : (Disk.below disk o.path).IsProper) : (selection disk o).Nodup := by
  rw [selection, selectedFiles]
  split
  · exact List.nodup_singleton _
  split
  · exact (isWalk_filter _ o.extensions).nodup h o.path
  · exact List.nodup_nil

end Paths

section Places

variable {σ ι ε : Type} [Disk σ ε] [Disk.View σ ι] {disk : σ} {o : Options}

/-- No other path to a selected file, or to one that is written, leads to where one is written. -/
def HasNoLinks (disk : σ) (o : Options) : Prop :=
  ∀ p ∈ targets disk o, ∀ q ∈ selection disk o ++ targets disk o, ∀ l,
    place? disk p = some l → place? disk q = some l → p = q

variable {p q : Text} {l : ι}

/-- What is written for a file is written at a target. -/
theorem exists_target_of_writes (hp : p ∈ selection disk o) (hw : Writes o.mode disk p l) :
    ∃ t ∈ targets disk o, place? disk t = some l ∧
      (t = p ∨ o.backup = true ∧ t = backupPath p) := by
  obtain ⟨hchanged, hl | ⟨hb, hl⟩⟩ := hw
  · exact ⟨p, mem_targets_iff.2 ⟨p, hp, hchanged, .inl rfl⟩, hl, .inl rfl⟩
  · exact ⟨_, mem_targets_iff.2 ⟨p, hp, hchanged, .inr ⟨hb, rfl⟩⟩, hl, .inr ⟨hb, rfl⟩⟩

section Selected

variable (hroom : o.backup = true → HasRoom disk o) (hlinks : HasNoLinks disk o)

include hroom hlinks

/-- What is written for one selected file keeps off the others. -/
theorem keepsOff_of_ne (hp : p ∈ selection disk o) (hq : q ∈ selection disk o) (hne : p ≠ q) :
    KeepsOff o.mode disk p q := by
  -- a backup is no selected file
  have hbackup {r r' : Text} (hb : o.backup = true) (hr : r ∈ selection disk o)
      (hr' : r' ∈ selection disk o) : backupPath r ≠ r' := by
    rintro rfl
    exact (hroom hb r hr).1 hr'
  intro l hw
  obtain ⟨t, ht, hl, hcase⟩ := exists_target_of_writes hp hw
  constructor
  · intro hl'
    obtain rfl := hlinks t ht q (List.mem_append_left _ hq) l hl hl'
    rcases hcase with rfl | ⟨hb, htarget⟩
    · exact hne rfl
    · exact hbackup hb hp hq htarget.symm
  · intro hw'
    obtain ⟨t', ht', hl', hcase'⟩ := exists_target_of_writes hq hw'
    obtain rfl := hlinks t ht t' (List.mem_append_right _ ht') l hl hl'
    rcases hcase with rfl | ⟨hb, rfl⟩ <;> rcases hcase' with hsame | ⟨hb', hsame⟩
    · exact hne hsame
    · exact hbackup hb' hq hp hsame.symm
    · exact hbackup hb hp hq hsame
    · exact hne (backupPath_inj hsame)

/-- **No selected file is in the way of another.** -/
theorem pairwise_apart (hproper : (Disk.below disk o.path).IsProper) :
    (selection disk o).Pairwise (Apart o.mode disk) :=
  (nodup_selection hproper).imp_of_mem fun hp hq hne =>
    ⟨keepsOff_of_ne hroom hlinks hp hq hne, keepsOff_of_ne hroom hlinks hq hp hne.symm⟩

end Selected

end Places

/-! ## Trees have no links -/

variable {tree : FileTree} {o : Options} {paths : List Text}

/-- Paths to different files, none of which leads to a place for a backup by another way than the
ending. -/
structure IsSelection (tree : FileTree) (paths : List Text) : Prop where
  file : ∀ p ∈ paths, ∃ l, tree.locate p = .ok l ∧ (tree.fileAt? l).isSome = true
  inj : ∀ p ∈ paths, ∀ q ∈ paths, ∀ l, tree.locate p = .ok l → tree.locate q = .ok l → p = q
  backup : ∀ p ∈ paths, ∀ q ∈ paths, ∀ l, tree.locate p = .ok l → tree.locate q = .ok l.backup →
    q = backupPath p

theorem isSelection_singleton (ht : tree.IsProper) {p : Text} (h : tree.isFile p = true) :
    IsSelection tree [p] := by
  rw [FileTree.isFile] at h
  cases hl : tree.locate p with
  | error e => rw [hl] at h; cases h
  | ok l =>
    rw [hl] at h
    refine ⟨?_, fun q hq q' hq' _ _ _ => ?_, ?_⟩
    · intro q hq
      obtain rfl := List.mem_singleton.1 hq
      exact ⟨l, hl, h⟩
    · rw [List.mem_singleton.1 hq, List.mem_singleton.1 hq']
    · intro q hq q' hq' m hm hbackup
      obtain rfl := List.mem_singleton.1 hq
      obtain rfl := List.mem_singleton.1 hq'
      obtain rfl : l = m := Except.ok.inj (hl.symm.trans hm)
      have hsame : l.backup = l := Except.ok.inj (hbackup.symm.trans hm)
      exact absurd hsame (Location.backup_ne (ht.ne_nil_of_fileAt? h))

/-- The backup of a file below a folder lies below the folder. -/
theorem pathBelow_backup {folder l : Location} (path : Text) (h : FileTree.IsBelow tree folder l) :
    pathBelow path l.backup = backupPath (pathBelow path l) := by
  have hway : List.intercalate ['/'] l ≠ [] := by
    obtain ⟨name, l, rfl⟩ := List.exists_cons_of_ne_nil h.ne_nil
    intro hnil
    obtain ⟨⟨hname, -⟩, -⟩ := h.names name List.mem_cons_self
    by_cases hl : l = []
    · rw [hl, List.intercalate_singleton] at hnil
      exact hname hnil
    · rw [List.intercalate_cons_of_ne_nil hl, List.append_assoc] at hnil
      exact hname (List.append_eq_nil_iff.1 hnil).1
  rw [pathBelow, Location.intercalate_backup h.ne_nil, Path.join_append hway]
  rfl

theorem isSelection_map_pathBelow (ht : tree.IsProper) {path : Text} {folder : Location}
    (hfolder : tree.locate path = .ok folder) {ls : List Location}
    (hls : ∀ l ∈ ls, FileTree.IsBelow tree folder l) :
    IsSelection tree (ls.map (pathBelow path)) := by
  have hlocate {l m : Location} (hl : l ∈ ls) (hm : tree.locate (pathBelow path l) = .ok m) :
      m = folder ++ l := Except.ok.inj (hm.symm.trans (ht.locate_join hfolder (hls l hl)))
  refine ⟨?_, ?_, ?_⟩
  · intro p hp
    obtain ⟨l, hl, rfl⟩ := List.mem_map.1 hp
    exact ⟨folder ++ l, ht.locate_join hfolder (hls l hl), (hls l hl).file⟩
  · intro p hp q hq k hk hk'
    obtain ⟨l, hl, rfl⟩ := List.mem_map.1 hp
    obtain ⟨m, hm, rfl⟩ := List.mem_map.1 hq
    rw [List.append_cancel_left ((hlocate hl hk).symm.trans (hlocate hm hk'))]
  · intro p hp q hq m hm hbackup
    obtain ⟨l, hl, rfl⟩ := List.mem_map.1 hp
    obtain ⟨k, hk, rfl⟩ := List.mem_map.1 hq
    have hway : folder ++ l.backup = folder ++ k := by
      rw [← Location.backup_append folder (hls l hl).ne_nil, ← hlocate hl hm, hlocate hk hbackup]
    rw [← List.append_cancel_left hway, pathBelow_backup path (hls l hl)]

/-- The files that the command selects are different ones. -/
theorem isSelection_selection (ht : tree.IsProper) (o : Options) :
    IsSelection tree (selection tree o) := by
  rw [selection, selectedFiles]
  split
  · next hfile => exact isSelection_singleton ht hfile
  split
  · next hfolder =>
    obtain ⟨folder, hl, hfolder⟩ := FileTree.isFolder_eq_true_iff.1 hfolder
    refine isSelection_map_pathBelow ht hl fun l hmem => ?_
    exact ht.isBelow_of_has hl hfolder (Listing.mem_walk_iff.1 (List.mem_filter.1 hmem).1)
  · exact ⟨fun _ h => absurd h List.not_mem_nil, fun _ h => absurd h List.not_mem_nil,
      fun _ h => absurd h List.not_mem_nil⟩

/-- **In a proper tree, different paths to files and their backups lead to different places.** -/
theorem hasNoLinks_of_isProper (ht : tree.IsProper) (o : Options) : HasNoLinks tree o := by
  have hs := isSelection_selection ht o
  -- a path to a backup leads beside the file
  have hbackup {p : Text} (hp : p ∈ selection tree o) {m : Location}
      (hm : tree.locate (backupPath p) = .ok m) :
      ∃ l, tree.locate p = .ok l ∧ l ≠ [] ∧ m = l.backup := by
    obtain ⟨l, hl, hfile⟩ := hs.file p hp
    exact ⟨l, hl, ht.ne_nil_of_fileAt? hfile,
      ht.eq_backup_of_locate hl (ht.isFolderAt_of_fileAt? hfile) hm⟩
  have htarget {p : Text} (hp : p ∈ selection tree o ++ targets tree o) :
      p ∈ selection tree o ∨ ∃ q ∈ selection tree o, p = backupPath q := by
    rcases List.mem_append.1 hp with hp | hp
    · exact .inl hp
    · obtain ⟨q, hq, -, rfl | ⟨-, rfl⟩⟩ := mem_targets_iff.1 hp
      · exact .inl hq
      · exact .inr ⟨q, hq, rfl⟩
  intro p hp q hq l hl hl'
  rw [FileTree.place?_eq_some_iff] at hl hl'
  rcases htarget (List.mem_append_right _ hp) with hp | ⟨p, hp', rfl⟩ <;>
    rcases htarget hq with hq | ⟨q, hq', rfl⟩
  · exact hs.inj p hp q hq l hl hl'
  · obtain ⟨k, hk, -, rfl⟩ := hbackup hq' hl'
    exact hs.backup q hq' p hp k hk hl
  · obtain ⟨k, hk, -, rfl⟩ := hbackup hp' hl
    exact (hs.backup p hp' q hq k hk hl').symm
  · obtain ⟨k, hk, hne, rfl⟩ := hbackup hp' hl
    obtain ⟨k', hk', hne', hsame⟩ := hbackup hq' hl'
    obtain rfl := Location.backup_inj hne hne' hsame
    rw [hs.inj p hp' q hq' k hk hk']

end DoxygenMarkdown.Batch

import DoxygenMarkdown.Batch
import DoxygenMarkdown.Proofs.FileTree.Listing
import DoxygenMarkdown.Proofs.Text.LetterCase
import Mathlib.Data.List.Permutation

/-!
# The files with a wanted ending

Below a folder, the command selects the files whose names have one of the wanted endings, each of
them once and in the order in which the folder is gone through. A single file is selected whatever
its ending is: **`selectedFiles_walk`**.

The letter case of a file name does not matter, but that of a wanted ending does: it is compared
with an ending in small letters, so one with a capital in it fits no file (`isWanted_iff`,
`selectedFiles_capitals`).
-/

namespace DoxygenMarkdown.Batch

/-- A wanted ending without capitals. -/
def IsInSmallLetters (ending : Text) : Prop := (dotted ending).lower = dotted ending

/-- A file name with some ending, up to letter case and the dot that the ending may begin with. -/
def HasEnding (name ending : Text) : Prop := (Path.extension name).lower = (dotted ending).lower

instance (ending : Text) : Decidable (IsInSmallLetters ending) :=
  inferInstanceAs (Decidable (_ = _))

instance (name ending : Text) : Decidable (HasEnding name ending) :=
  inferInstanceAs (Decidable (_ = _))

/-- The files below a folder that are selected, by the way to them from there. -/
structure IsWalk (t : Listing) (extensions : List Text) (ls : List Location) : Prop where
  mem_iff : ∀ l, l ∈ ls ↔ t.Has l ∧
    ∃ ending ∈ extensions, IsInSmallLetters ending ∧ HasEnding (l.getLastD []) ending
  /-- They come in the order in which the folder is gone through. -/
  ordered : ls.Pairwise t.ComesBefore
  /-- Each comes once, and so does each path. -/
  nodup : t.IsProper → ∀ path, (ls.map (pathBelow path)).Nodup

/-- Endings with capitals fit no name. -/
theorem isWanted_iff {extensions : List Text} {name : Text} :
    isWanted extensions name = true ↔
      ∃ ending ∈ extensions, IsInSmallLetters ending ∧ HasEnding name ending := by
  rw [isWanted, List.contains_iff_mem, List.mem_map]
  refine exists_congr fun ending => and_congr_right fun _ => ?_
  rw [IsInSmallLetters, HasEnding]
  constructor
  · intro h
    rw [h, Text.lower_lower]
    exact ⟨rfl, rfl⟩
  · rintro ⟨hsmall, h⟩
    rw [h, hsmall]

/-- Different files have different paths. -/
theorem nodup_map_pathBelow {t : Listing} (h : t.IsProper) {ls : List Location} (hnodup : ls.Nodup)
    (hls : ∀ l ∈ ls, t.Has l) (path : Text) : (ls.map (pathBelow path)).Nodup := by
  have hne {l : Location} (hl : l ∈ ls) : l ≠ [] := by
    rintro rfl
    exact t.not_has_nil (hls [] hl)
  refine List.nodup_map_iff_inj_on hnodup |>.2 fun l hl m hm heq => ?_
  exact Location.join_intercalate_inj (hne hl) (hne hm) (Listing.names_of_has h (hls l hl))
    (Listing.names_of_has h (hls m hm)) heq

theorem isWalk_filter (t : Listing) (extensions : List Text) :
    IsWalk t extensions (t.walk.filter fun l => isWanted extensions (l.getLastD [])) where
  mem_iff l := by rw [List.mem_filter, Listing.mem_walk_iff, isWanted_iff]
  ordered := (Listing.pairwise_walk t).filter _
  nodup h path := nodup_map_pathBelow h ((Listing.nodup_walk h).filter _)
    (fun l hl => Listing.mem_walk_iff.1 (List.mem_filter.1 hl).1) path

variable {σ ε : Type} [Disk σ ε]

/-- Below a folder, what is gone through is filtered by the endings. -/
theorem selectedFiles_of_isFolder {disk : σ} {o : Options} (hfile : Disk.isFile disk o.path = false)
    (hfolder : Disk.isFolder disk o.path = true) {ls : List Location}
    (hwalk : (Disk.below disk o.path).walk = ls) :
    selectedFiles disk o = some ((ls.filter fun l =>
      isWanted o.extensions (l.getLastD [])).map (pathBelow o.path)) := by
  rw [selectedFiles, if_neg (Bool.eq_false_iff.1 hfile), if_pos hfolder, hwalk]

/-- Files are gone through from the first one on, and all of them unless one stops that. -/
theorem exists_eq_handled_append (mode : Mode) (disk : σ) (paths : List Text) :
    ∃ rest, paths = (convertPaths mode disk paths).handled.map (·.path) ++ rest ∧
      ((convertPaths mode disk paths).stopped = none ↔ rest = []) := by
  induction paths generalizing disk with
  | nil => exact ⟨[], rfl, iff_of_true rfl rfl⟩
  | cons path paths ih =>
    rw [convertPaths]
    cases (convertPath mode disk path).changed with
    | error e =>
      exact ⟨path :: paths, rfl, iff_of_false (Option.some_ne_none _) (List.cons_ne_nil _ _)⟩
    | ok changed =>
      obtain ⟨rest, hpaths, hstopped⟩ := ih (convertPath mode disk path).tree
      exact ⟨rest, congrArg (path :: ·) hpaths, hstopped⟩

/-- **All files with a wanted ending are selected, in order, and no others.** If the path leads to a
file, that one is. What is selected is converted in that order, up to a file that stops the
command. -/
theorem selectedFiles_walk (disk : σ) (o : Options) :
    (Disk.isFile disk o.path = true → selectedFiles disk o = some [o.path]) ∧
    (Disk.isFile disk o.path = false → Disk.isFolder disk o.path = true →
      ∃ ls : List Location, selectedFiles disk o = some (ls.map (pathBelow o.path)) ∧
        IsWalk (Disk.below disk o.path) o.extensions ls) ∧
    (Disk.isFile disk o.path = false → Disk.isFolder disk o.path = false →
      selectedFiles disk o = none) ∧
    ∀ paths, selectedFiles disk o = some paths →
      ∃ rest, paths = (convertPaths o.mode disk paths).handled.map (·.path) ++ rest ∧
        ((convertPaths o.mode disk paths).stopped = none ↔ rest = []) := by
  refine ⟨fun hfile => ?_,
    fun hfile hfolder => ⟨_, selectedFiles_of_isFolder hfile hfolder rfl, isWalk_filter _ _⟩,
    fun hfile hfolder => ?_, fun paths _ => exists_eq_handled_append o.mode disk paths⟩
  · rw [selectedFiles, if_pos hfile]
  · rw [selectedFiles, if_neg (Bool.eq_false_iff.1 hfile), if_neg (Bool.eq_false_iff.1 hfolder)]

/-- A folder with folders in it, which are not listed by their names, and names in both letter
cases. -/
def nestedFolder : FileTree where
  folders := [["src".toList], ["src".toList, "b".toList], ["src".toList, "a".toList]]
  files := [
    (["src".toList, "c.txt".toList], []),
    (["src".toList, "B.RS".toList], Utf8.encode "fn f".toList),
    (["src".toList, "a".toList, "a.h".toList], []),
    (["src".toList, "b".toList, "z.rs".toList], []),
    (["src".toList, "b".toList, "d.rs".toList], [])]

/-- The names in capitals are found, files come before folders and in the order of their names, and
folders in the order of the disk. -/
theorem selectedFiles_walk_nestedFolder :
    let o : Options := { path := "src".toList, extensions := ["rs".toList, ".h".toList] }
    let t := nestedFolder.below "src".toList
    nestedFolder.isFile "src".toList = false ∧ nestedFolder.isFolder "src".toList = true ∧
      t.IsProper ∧
      ∃ ls : List Location, selectedFiles nestedFolder o = some (ls.map (pathBelow "src".toList)) ∧
        IsWalk t o.extensions ls ∧ ls.map (pathBelow "src".toList) =
          ["src/B.RS".toList, "src/b/d.rs".toList, "src/b/z.rs".toList, "src/a/a.h".toList] := by
  intro o t
  have hproper : nestedFolder.IsProper := by constructor <;> decide
  have hfile : nestedFolder.isFile "src".toList = false := by decide
  have hfolder : nestedFolder.isFolder "src".toList = true := by decide
  obtain ⟨-, hwalk, -, -⟩ := selectedFiles_walk nestedFolder o
  obtain ⟨ls, hls, hwalk⟩ := hwalk hfile hfolder
  have hbelow : t = .folder "b".toList (.file "z.rs".toList (.file "d.rs".toList .nil))
      (.folder "a".toList (.file "a.h".toList .nil)
        (.file "c.txt".toList (.file "B.RS".toList .nil))) := by decide
  have hall : t.walk = [["B.RS".toList], ["c.txt".toList], ["b".toList, "d.rs".toList],
      ["b".toList, "z.rs".toList], ["a".toList, "a.h".toList]] := by
    rw [hbelow]
    cbv
  have hselected : selectedFiles nestedFolder o = some ["src/B.RS".toList, "src/b/d.rs".toList,
      "src/b/z.rs".toList, "src/a/a.h".toList] := by
    refine (selectedFiles_of_isFolder hfile hfolder hall).trans ?_
    decide
  exact ⟨hfile, hfolder, hproper.isProper_below _, ls, hls, hwalk,
    Option.some.inj (hls.symm.trans hselected)⟩

/-- An ending in capitals fits no name, not even one in capitals. -/
theorem selectedFiles_capitals :
    let o : Options := { path := "src".toList, extensions := [".RS".toList] }
    HasEnding "B.RS".toList ".RS".toList ∧
      nestedFolder.fileAt? ["src".toList, "B.RS".toList] ≠ none ∧
      selectedFiles nestedFolder o = some [] := by
  intro o
  refine ⟨by decide, by decide, ?_⟩
  have hnone (l : Location) : ¬ isWanted o.extensions (l.getLastD []) = true := by
    rw [isWanted_iff]
    rintro ⟨ending, hending, hsmall, -⟩
    obtain rfl := List.mem_singleton.1 hending
    exact absurd hsmall (by decide)
  have hfile : Disk.isFile nestedFolder o.path = false := by decide
  rw [selectedFiles_of_isFolder hfile (by decide) rfl, List.filter_eq_nil_iff.2 fun l _ => hnone l]
  rfl

end DoxygenMarkdown.Batch

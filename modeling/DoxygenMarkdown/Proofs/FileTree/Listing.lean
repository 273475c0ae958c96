import DoxygenMarkdown.Proofs.Disk.Listing
import DoxygenMarkdown.Proofs.FileTree.Paths

/-!
# What can be seen of a tree

What can be seen below a folder of a proper tree are the files that stand there, at any depth:
**`IsProper.has_below_iff`**. Each entry is seen once (`IsProper.isProper_below`).
-/

namespace DoxygenMarkdown

namespace Listing

variable {names : List Text} {t : Listing} {l : Location}

/-! ## Entries in front of others -/

theorem has_foldr_file : (names.foldr .file t).Has l ↔ (∃ name ∈ names, l = [name]) ∨ t.Has l := by
  induction names with
  | nil => simp
  | cons name names ih =>
    rw [List.foldr_cons, Has, ih]
    simp only [List.mem_cons, exists_eq_or_imp, or_assoc]

theorem has_foldr_folder {below : Text → Listing} :
    (names.foldr (fun name rest => .folder name (below name) rest) t).Has l ↔
      (∃ name ∈ names, ∃ m, l = name :: m ∧ (below name).Has m) ∨ t.Has l := by
  induction names with
  | nil => simp
  | cons name names ih =>
    rw [List.foldr_cons, Has, ih]
    simp only [List.mem_cons, exists_eq_or_imp, or_assoc]

theorem entryNames_foldr_file : (names.foldr .file t).entryNames = names ++ t.entryNames := by
  induction names with
  | nil => rfl
  | cons name names ih => rw [List.foldr_cons, entryNames, ih, List.cons_append]

theorem entryNames_foldr_folder {below : Text → Listing} :
    (names.foldr (fun name rest => .folder name (below name) rest) t).entryNames =
      names ++ t.entryNames := by
  induction names with
  | nil => rfl
  | cons name names ih => rw [List.foldr_cons, entryNames, ih, List.cons_append]

/-- Files with names of their own are properly listed in front of others. -/
theorem isProper_foldr_file (hnames : ∀ name ∈ names, name ≠ [] ∧ '/' ∉ name)
    (hnodup : (names ++ t.entryNames).Nodup) (ht : t.IsProper) :
    (names.foldr .file t).IsProper := by
  induction names with
  | nil => exact ht
  | cons name names ih =>
    rw [List.forall_mem_cons] at hnames
    rw [List.cons_append, List.nodup_cons] at hnodup
    refine ⟨hnames.1, ?_, ih hnames.2 hnodup.2⟩
    rw [entryNames_foldr_file]
    exact hnodup.1

/-- So are folders. -/
theorem isProper_foldr_folder {below : Text → Listing}
    (hnames : ∀ name ∈ names, name ≠ [] ∧ '/' ∉ name)
    (hnodup : (names ++ t.entryNames).Nodup) (hbelow : ∀ name ∈ names, (below name).IsProper)
    (ht : t.IsProper) :
    (names.foldr (fun name rest => .folder name (below name) rest) t).IsProper := by
  induction names with
  | nil => exact ht
  | cons name names ih =>
    rw [List.forall_mem_cons] at hnames hbelow
    rw [List.cons_append, List.nodup_cons] at hnodup
    refine ⟨hnames.1, ?_, hbelow.1, ih hnames.2 hnodup.2 hbelow.2⟩
    rw [entryNames_foldr_folder]
    exact hnodup.1

end Listing

namespace FileTree

variable {t : FileTree} {p : Text} {folder l : Location} {depth : Nat}

/-! ## The entries of a folder -/

/-- The names of the folders that stand in a folder. -/
def folderNames (t : FileTree) (folder : Location) : List Text :=
  t.folders.filterMap (childName? folder)

/-- The names of the files that stand in a folder. -/
def fileNames (t : FileTree) (folder : Location) : List Text :=
  t.files.filterMap fun f => childName? folder f.1

/-- A name is found in a folder if it is the one step from there. -/
theorem childName?_eq_some_iff {name : Text} :
    childName? folder l = some name ↔ l = folder ++ [name] := by
  rw [← Location.from?_eq_some_iff, childName?]
  split
  · next h => rw [h, Option.some.injEq, Option.some.injEq, List.cons.injEq, and_iff_left rfl]
  · next h => exact iff_of_false nofun fun hname => h name hname

theorem mem_folderNames_iff {name : Text} :
    name ∈ t.folderNames folder ↔ t.isFolderAt (folder ++ [name]) = true := by
  rw [folderNames, List.mem_filterMap, isFolderAt]
  simp [childName?_eq_some_iff]

theorem mem_fileNames_iff {name : Text} :
    name ∈ t.fileNames folder ↔ (t.fileAt? (folder ++ [name])).isSome = true := by
  rw [fileNames, List.mem_filterMap]
  constructor
  · rintro ⟨f, hf, hname⟩
    rw [← childName?_eq_some_iff.1 hname]
    exact isSome_fileAt?_of_mem hf
  · intro h
    obtain ⟨f, hf, hname⟩ := exists_mem_of_fileAt? h
    exact ⟨f, hf, childName?_eq_some_iff.2 hname⟩

/-- Different locations in one folder have different names. -/
theorem nodup_filterMap_childName? {ls : List Location} (h : ls.Nodup) :
    (ls.filterMap (childName? folder)).Nodup := by
  refine h.filterMap fun l m name hl hm => ?_
  rw [childName?_eq_some_iff.1 hl, childName?_eq_some_iff.1 hm]

/-- A folder lists its folders with what can be seen in them, and then its files. -/
theorem listing_succ :
    t.listing (depth + 1) folder =
      (t.folderNames folder).foldr
        (fun name rest => .folder name (t.listing depth (folder ++ [name])) rest)
        ((t.fileNames folder).foldr .file .nil) := rfl

namespace IsProper

/-- What is listed of a folder are the files that stand below it, down to the depth. -/
theorem has_listing_iff (ht : t.IsProper) (hfolder : t.isFolderAt folder = true) :
    (t.listing depth folder).Has l ↔
      l.length ≤ depth ∧ (t.fileAt? (folder ++ l)).isSome = true := by
  induction depth generalizing folder l with
  | zero =>
    refine iff_of_false id fun h => ?_
    obtain rfl := List.length_eq_zero_iff.1 (Nat.le_zero.1 h.1)
    rw [List.append_nil] at h
    rw [ht.isFolderAt_of_fileAt? h.2] at hfolder
    cases hfolder
  | succ depth ih =>
    rw [listing_succ, Listing.has_foldr_folder, Listing.has_foldr_file]
    constructor
    · rintro (⟨name, hname, m, rfl, hm⟩ | ⟨name, hname, rfl⟩ | h)
      · obtain ⟨hlength, hfile⟩ := (ih (mem_folderNames_iff.1 hname)).1 hm
        rw [List.append_assoc] at hfile
        exact ⟨Nat.succ_le_succ hlength, hfile⟩
      · exact ⟨Nat.succ_le_succ (Nat.zero_le depth), mem_fileNames_iff.1 hname⟩
      · exact h.elim
    · rintro ⟨hlength, hfile⟩
      rcases l with _ | ⟨name, m⟩
      · rw [List.append_nil] at hfile
        rw [ht.isFolderAt_of_fileAt? hfile] at hfolder
        cases hfolder
      by_cases hm : m = []
      · subst hm
        exact .inr (.inl ⟨name, mem_fileNames_iff.2 hfile, rfl⟩)
      · -- a file further below stands in a folder of the folder
        have hsplit : folder ++ name :: m = folder ++ [name] ++ m := by simp
        rw [hsplit] at hfile
        obtain ⟨f, hf, hl⟩ := exists_mem_of_fileAt? hfile
        have habove := ht.above_file f hf
        rw [hl, List.dropLast_append_of_ne_nil hm] at habove
        have hname : t.isFolderAt (folder ++ [name]) = true := ht.isFolderAt_of_append habove
        exact .inl ⟨name, mem_folderNames_iff.2 hname, m, rfl,
          (ih hname).2 ⟨Nat.le_of_succ_le_succ hlength, hfile⟩⟩

theorem isName_of_mem_folderNames (ht : t.IsProper) {name : Text}
    (h : name ∈ t.folderNames folder) : Location.IsName name := by
  obtain ⟨l, hl, hname⟩ := List.mem_filterMap.1 h
  refine ht.folder_names l hl name ?_
  rw [childName?_eq_some_iff.1 hname]
  exact List.mem_concat_self

theorem isName_of_mem_fileNames (ht : t.IsProper) {name : Text}
    (h : name ∈ t.fileNames folder) : Location.IsName name := by
  obtain ⟨f, hf, hname⟩ := List.mem_filterMap.1 h
  refine ht.names f hf name ?_
  rw [childName?_eq_some_iff.1 hname]
  exact List.mem_concat_self

/-- In a proper tree every folder lists entries with names, each its own. -/
theorem isProper_listing (ht : t.IsProper) : (t.listing depth folder).IsProper := by
  induction depth generalizing folder with
  | zero => exact trivial
  | succ depth ih =>
    rw [listing_succ]
    have hfiles : (t.fileNames folder).Nodup := by
      have hmap : t.fileNames folder = (t.files.map (·.1)).filterMap (childName? folder) := by
        rw [List.filterMap_map]
        rfl
      rw [hmap]
      exact nodup_filterMap_childName? ht.nodup
    have hentries :
        ((t.fileNames folder).foldr Listing.file .nil).entryNames = t.fileNames folder := by
      rw [Listing.entryNames_foldr_file]
      exact List.append_nil _
    refine Listing.isProper_foldr_folder ?_ ?_ (fun _ _ => ih) ?_
    · intro name hname
      obtain ⟨⟨hempty, -⟩, hslash, -⟩ := ht.isName_of_mem_folderNames hname
      exact ⟨hempty, hslash⟩
    · rw [hentries]
      refine (nodup_filterMap_childName? ht.nodup_folders).append hfiles fun name hname hfile => ?_
      have hfolder := mem_folderNames_iff.1 hname
      rw [ht.isFolderAt_of_fileAt? (mem_fileNames_iff.1 hfile)] at hfolder
      cases hfolder
    · refine Listing.isProper_foldr_file ?_ ?_ trivial
      · intro name hname
        obtain ⟨⟨hempty, -⟩, hslash, -⟩ := ht.isName_of_mem_fileNames hname
        exact ⟨hempty, hslash⟩
      · exact (List.append_nil (t.fileNames folder)).symm ▸ hfiles

/-! ## What can be seen below a path -/

/-- No file lies deeper than the tree is looked through. -/
theorem length_le_depth (h : (t.fileAt? l).isSome = true) : l.length ≤ t.depth := by
  have hmax (ns : List Nat) {n : Nat} (h : n ∈ ns) : n ≤ ns.foldr max 0 := by
    induction ns with
    | nil => cases h
    | cons k ns ih =>
      rcases List.mem_cons.1 h with rfl | h
      · exact Nat.le_max_left _ _
      · exact (ih h).trans (Nat.le_max_right _ _)
  obtain ⟨f, hf, rfl⟩ := exists_mem_of_fileAt? h
  exact hmax _ (List.mem_map_of_mem hf)

/-- **What can be seen below a folder are the files that stand there.** -/
theorem has_below_iff (ht : t.IsProper) (hp : t.locate p = .ok folder)
    (hfolder : t.isFolderAt folder = true) :
    (t.below p).Has l ↔ (t.fileAt? (folder ++ l)).isSome = true := by
  rw [below, hp]
  refine (ht.has_listing_iff hfolder).trans (and_iff_right_of_imp fun h => ?_)
  have hlength := length_le_depth h
  rw [List.length_append] at hlength
  omega

/-- Each entry of a folder is seen once, by its name. -/
theorem isProper_below (ht : t.IsProper) (p : Text) : (t.below p).IsProper := by
  rw [below]
  split
  · exact ht.isProper_listing
  · exact trivial

/-- The way to a file that can be seen. -/
theorem isBelow_of_has (ht : t.IsProper) (hp : t.locate p = .ok folder)
    (hfolder : t.isFolderAt folder = true) (h : (t.below p).Has l) : t.IsBelow folder l := by
  have hfile := (ht.has_below_iff hp hfolder).1 h
  obtain ⟨f, hf, hl⟩ := exists_mem_of_fileAt? hfile
  refine ⟨?_, fun name hname => ?_, hl ▸ ht.above_file f hf, hfile⟩
  · rintro rfl
    exact Listing.not_has_nil _ h
  · exact ht.names f hf name (hl ▸ List.mem_append_right _ hname)

end IsProper

end FileTree

end DoxygenMarkdown

import DoxygenMarkdown.Disk.Listing
import Mathlib.Data.Char
import Mathlib.Data.List.Lex
import Mathlib.Data.List.Nodup

/-!
# How a folder is gone through

To go through a folder is to come by each file below it (`Listing.mem_walk_iff`), once
(`Listing.nodup_walk`), in the order that folders are gone through: **`Listing.pairwise_walk`**.

That order (`Listing.ComesBefore`) puts the files of a folder first, by their names, and then what
lies in its folders, all of one folder before all of the next. Which folder is the next one is up to
the disk.
-/

namespace DoxygenMarkdown.Listing

/-- A file lies at the end of a way. -/
def Has : Listing → Location → Prop
  | nil, _ => False
  | file name rest, l => l = [name] ∨ rest.Has l
  | folder name below rest, l => (∃ m, l = name :: m ∧ below.Has m) ∨ rest.Has l

/-- The names of all entries. -/
def entryNames : Listing → List Text
  | nil => []
  | file name rest | folder name _ rest => name :: rest.entryNames

/-- What holds of every folder: its entries have names, each its own. -/
def IsProper : Listing → Prop
  | nil => True
  | file name rest => (name ≠ [] ∧ '/' ∉ name) ∧ name ∉ rest.entryNames ∧ rest.IsProper
  | folder name below rest =>
    (name ≠ [] ∧ '/' ∉ name) ∧ name ∉ rest.entryNames ∧ below.IsProper ∧ rest.IsProper

/-- Of two ways to files, the one that is gone first. -/
inductive ComesBefore : Listing → Location → Location → Prop where
  /-- The files of a folder come in the order of their names. -/
  | names {t : Listing} {a b : Text} (h : a ≤ b) : ComesBefore t [a] [b]
  /-- They come before what lies further below. -/
  | file {t : Listing} (a b : Text) {m : Location} (hm : m ≠ []) : ComesBefore t [a] (b :: m)
  /-- What lies below a folder comes in the order of that folder, -/
  | within {name : Text} {below rest : Listing} {l m : Location} (h : below.ComesBefore l m) :
    ComesBefore (folder name below rest) (name :: l) (name :: m)
  /-- and before all that lies below the folders that are listed behind it. -/
  | folders {name b : Text} {below rest : Listing} {l m : Location} (hl : below.Has l)
    (hm : m ≠ []) (h : rest.Has (b :: m)) :
    ComesBefore (folder name below rest) (name :: l) (b :: m)
  | laterFile {name : Text} {rest : Listing} {l m : Location} (h : rest.ComesBefore l m) :
    ComesBefore (Listing.file name rest) l m
  | laterFolder {name : Text} {below rest : Listing} {l m : Location} (h : rest.ComesBefore l m) :
    ComesBefore (folder name below rest) l m

variable {t : Listing} {l : Location}

/-! ## The files that are come by -/

theorem not_has_nil (t : Listing) : ¬ t.Has [] := by
  induction t with
  | nil => exact id
  | file name rest ih => exact fun h => h.elim nofun ih
  | folder name below rest _ ih => exact fun h => h.elim (fun ⟨_, h, _⟩ => nomatch h) ih

/-- The files of the folder itself are one step away. -/
theorem mem_ownFiles_iff : l ∈ t.ownFiles ↔ ∃ name ∈ t.fileNames, l = [name] := by
  simp only [ownFiles, List.mem_map, List.mem_mergeSort, eq_comm]

/-- **All files are come by, and nothing else.** -/
theorem mem_walk_iff : l ∈ t.walk ↔ t.Has l := by
  rw [walk, List.mem_append, mem_ownFiles_iff]
  induction t generalizing l with
  | nil => simp [fileNames, filesInFolders, Has]
  | file name rest ih =>
    rw [Has, ← ih, fileNames, filesInFolders]
    simp only [List.mem_cons, exists_eq_or_imp, or_assoc]
  | folder name below rest ihBelow ih =>
    have hbelow (m : Location) : m ∈ below.ownFiles ++ below.filesInFolders ↔ below.Has m := by
      rw [List.mem_append, mem_ownFiles_iff, ihBelow]
    rw [Has, ← ih, fileNames, filesInFolders, List.mem_append, List.mem_map]
    simp only [hbelow, eq_comm (a := name :: _), and_comm, or_left_comm]

theorem has_of_mem_filesInFolders (h : l ∈ t.filesInFolders) : t.Has l :=
  mem_walk_iff.1 (List.mem_append_right _ h)

/-- What lies in a folder of the folder has two names or more on the way. -/
theorem exists_cons_of_mem_filesInFolders (h : l ∈ t.filesInFolders) :
    ∃ name m, l = name :: m ∧ m ≠ [] := by
  induction t with
  | nil => cases h
  | file name rest ih => exact ih h
  | folder name below rest _ ih =>
    rcases List.mem_append.1 h with h | h
    · obtain ⟨m, hm, rfl⟩ := List.mem_map.1 h
      refine ⟨name, m, rfl, ?_⟩
      rintro rfl
      exact not_has_nil below (mem_walk_iff.1 hm)
    · exact ih h

/-- The names on the way to a file. -/
theorem names_of_has (h : t.IsProper) (hl : t.Has l) : ∀ name ∈ l, name ≠ [] ∧ '/' ∉ name := by
  induction t generalizing l with
  | nil => exact hl.elim
  | file name rest ih =>
    obtain ⟨hname, -, hrest⟩ := h
    rcases hl with rfl | hl
    · exact List.forall_mem_singleton.2 hname
    · exact ih hrest hl
  | folder name below rest ihBelow ih =>
    obtain ⟨hname, -, hbelow, hrest⟩ := h
    rcases hl with ⟨m, rfl, hm⟩ | hl
    · exact List.forall_mem_cons.2 ⟨hname, ihBelow hbelow hm⟩
    · exact ih hrest hl

/-! ## Each file once -/

theorem mem_entryNames_of_mem_fileNames {name : Text} (h : name ∈ t.fileNames) :
    name ∈ t.entryNames := by
  induction t with
  | nil => exact h
  | file a rest ih =>
    rcases List.mem_cons.1 h with rfl | h
    · exact List.mem_cons_self
    · exact List.mem_cons_of_mem _ (ih h)
  | folder a below rest _ ih => exact List.mem_cons_of_mem _ (ih h)

/-- A way begins with the name of an entry. -/
theorem exists_mem_entryNames (h : t.Has l) : ∃ name ∈ t.entryNames, l.head? = some name := by
  induction t with
  | nil => exact h.elim
  | file name rest ih =>
    rcases h with rfl | h
    · exact ⟨name, List.mem_cons_self, rfl⟩
    · obtain ⟨a, ha, hl⟩ := ih h
      exact ⟨a, List.mem_cons_of_mem _ ha, hl⟩
  | folder name below rest _ ih =>
    rcases h with ⟨m, rfl, -⟩ | h
    · exact ⟨name, List.mem_cons_self, rfl⟩
    · obtain ⟨a, ha, hl⟩ := ih h
      exact ⟨a, List.mem_cons_of_mem _ ha, hl⟩

theorem nodup_fileNames (h : t.IsProper) : t.fileNames.Nodup := by
  induction t with
  | nil => exact List.nodup_nil
  | file name rest ih =>
    obtain ⟨-, hname, hrest⟩ := h
    exact List.nodup_cons.2 ⟨fun hmem => hname (mem_entryNames_of_mem_fileNames hmem), ih hrest⟩
  | folder name below rest _ ih => exact ih h.2.2.2

/-- No file of the folder comes twice. -/
theorem nodup_ownFiles (h : t.IsProper) : t.ownFiles.Nodup :=
  (((List.mergeSort_perm _ _).nodup_iff).2 (nodup_fileNames h)).map
    fun _ _ h => List.singleton_inj.1 h

/-- What lies in a folder of the folder is not one of its own files. -/
theorem disjoint_ownFiles (t : Listing) : t.ownFiles.Disjoint t.filesInFolders := by
  intro l hown hfolders
  obtain ⟨name, -, rfl⟩ := mem_ownFiles_iff.1 hown
  obtain ⟨a, m, heq, hm⟩ := exists_cons_of_mem_filesInFolders hfolders
  exact hm (List.cons.inj heq).2.symm

/-- **No file is come by twice.** -/
theorem nodup_walk (h : t.IsProper) : t.walk.Nodup := by
  refine (nodup_ownFiles h).append ?_ (disjoint_ownFiles t)
  induction t with
  | nil => exact List.nodup_nil
  | file name rest ih => exact ih h.2.2
  | folder name below rest ihBelow ih =>
    obtain ⟨-, hname, hbelow, hrest⟩ := h
    refine List.Nodup.append ?_ (ih hrest) fun l hl hl' => ?_
    · exact ((nodup_ownFiles hbelow).append (ihBelow hbelow) (disjoint_ownFiles below)).map
        fun _ _ h => (List.cons.inj h).2
    · -- what lies behind the folder begins with another name
      obtain ⟨m, -, rfl⟩ := List.mem_map.1 hl
      obtain ⟨a, ha, heq⟩ := exists_mem_entryNames (has_of_mem_filesInFolders hl')
      obtain rfl := Option.some.inj heq
      exact hname ha

/-! ## The order -/

/-- The files of the folder come in the order of their names. -/
theorem pairwise_ownFiles (t : Listing) : t.ownFiles.Pairwise t.ComesBefore := by
  have hlex {a b : Text} : (!b.lex a) = true ↔ a ≤ b := by
    rw [Bool.not_eq_true', Bool.eq_false_iff, ne_eq, List.lex_eq_true_iff_lt, not_lt]
  have hsorted : (t.fileNames.mergeSort fun a b => !b.lex a).Pairwise
      fun a b => (!b.lex a) = true := by
    refine List.pairwise_mergeSort (fun a b c h h' => ?_) (fun a b => ?_) _
    · exact hlex.2 ((hlex.1 h).trans (hlex.1 h'))
    · rw [Bool.or_eq_true, hlex, hlex]
      exact le_total a b
  exact List.pairwise_map.2 (hsorted.imp fun h => .names (hlex.1 h))

/-- What lies further below comes behind the files of the folder. -/
theorem pairwise_walk_of_filesInFolders (h : t.filesInFolders.Pairwise t.ComesBefore) :
    t.walk.Pairwise t.ComesBefore := by
  refine List.pairwise_append.2 ⟨pairwise_ownFiles t, h, fun l hl m hm => ?_⟩
  obtain ⟨name, -, rfl⟩ := mem_ownFiles_iff.1 hl
  obtain ⟨a, m, rfl, hne⟩ := exists_cons_of_mem_filesInFolders hm
  exact .file name a hne

/-- Below the folder, all of one folder comes before all of the next. -/
theorem pairwise_filesInFolders (t : Listing) : t.filesInFolders.Pairwise t.ComesBefore := by
  induction t with
  | nil => exact .nil
  | file name rest ih => exact ih.imp .laterFile
  | folder name below rest ihBelow ih =>
    refine List.pairwise_append.2 ⟨?_, ih.imp .laterFolder, fun l hl m hm => ?_⟩
    · exact List.pairwise_map.2 ((pairwise_walk_of_filesInFolders ihBelow).imp .within)
    · obtain ⟨k, hk, rfl⟩ := List.mem_map.1 hl
      obtain ⟨a, m, rfl, hne⟩ := exists_cons_of_mem_filesInFolders hm
      exact .folders (mem_walk_iff.1 hk) hne (has_of_mem_filesInFolders hm)

/-- **Files are come by in the order in which folders are gone through.** -/
theorem pairwise_walk (t : Listing) : t.walk.Pairwise t.ComesBefore :=
  pairwise_walk_of_filesInFolders (pairwise_filesInFolders t)

end DoxygenMarkdown.Listing

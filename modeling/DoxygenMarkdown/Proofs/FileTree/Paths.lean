import DoxygenMarkdown.Proofs.FileTree
import Mathlib.Data.List.Induction
import Mathlib.Data.List.Nodup

/-!
# Paths to files

A tree on a disk is *proper* (`IsProper`): names are names, no two files or folders stand at one
location, and what there is stands in a folder. In such a tree a path to a file ends with the name
of the file, whatever it leads through before, so the path with an ending behind it leads to a file
beside it, if anywhere (`IsProper.eq_backup_of_locate`). The way from a folder to a file below it,
written behind a path to the folder, is a path to the file (`IsProper.locate_join`).

In any tree the path to a file does not lead to the same file with an ending behind it
(`locate_append_ne`), so no file is its own backup. With that a tree is a lawful disk.
-/

namespace DoxygenMarkdown

/-! ## Paths as texts -/

namespace Path

theorem names_append_slash (x y : Text) : names (x ++ '/' :: y) = names x ++ names y :=
  List.splitOn_append_cons_self x y

theorem names_of_notMem {x : Text} (h : '/' ∉ x) : names x = [x] := List.splitOn_eq_singleton h

/-- What is written behind a path is written behind its last name. -/
theorem exists_names_append (p : Text) :
    ∃ init last, ∀ more, '/' ∉ more → names (p ++ more) = init ++ [last ++ more] := by
  by_cases hp : '/' ∈ p
  · obtain ⟨back, front, hback, hnotMem⟩ := List.eq_append_cons_of_mem (List.mem_reverse.2 hp)
    have hsplit : p = front.reverse ++ '/' :: back.reverse := by
      rw [← List.reverse_reverse p, hback]
      simp
    refine ⟨names front.reverse, back.reverse, fun more hmore => ?_⟩
    rw [hsplit, List.append_assoc, List.cons_append, names_append_slash,
      names_of_notMem (x := back.reverse ++ more)]
    rw [List.mem_append, List.mem_reverse]
    exact not_or.2 ⟨hnotMem, hmore⟩
  · refine ⟨[], p, fun more hmore => names_of_notMem ?_⟩
    rw [List.mem_append]
    exact not_or.2 ⟨hp, hmore⟩

theorem isAbsolute_append {p : Text} (h : p ≠ []) (q : Text) :
    isAbsolute (p ++ q) = isAbsolute p := by
  obtain ⟨c, p, rfl⟩ := List.exists_cons_of_ne_nil h
  simp only [isAbsolute, Text.startsWith, Text.after?, List.cons_append]
  split <;> rfl

/-- A relative path is written behind a path and a slash, unless there is a slash already. -/
theorem exists_join {p q : Text} (hp : p ≠ []) (hq : isAbsolute q = false) :
    ∃ front, (p = front ∨ p = front ++ ['/']) ∧ join p q = front ++ '/' :: q := by
  have hempty : p.isEmpty = false := by simpa using hp
  by_cases hslash : Text.endsWith p ['/'] = true
  · obtain ⟨front, rfl⟩ := List.isSuffixOf_iff_suffix.1 hslash
    refine ⟨front, .inr rfl, ?_⟩
    rw [join, hq, if_neg (by decide), hslash, Bool.or_true, if_pos rfl, List.append_assoc]
    rfl
  · refine ⟨p, .inl rfl, ?_⟩
    rw [join, hq, if_neg (by decide), hempty, Bool.false_or, if_neg hslash]

/-- What is written behind a relative path is written behind the joined one. -/
theorem join_append {p q : Text} (hq : q ≠ []) (more : Text) :
    join p (q ++ more) = join p q ++ more := by
  rw [join, join, isAbsolute_append hq]
  split
  · rfl
  · split
    · exact (List.append_assoc _ _ _).symm
    · exact (List.append_assoc p ('/' :: q) more).symm

end Path

namespace Location

/-- A name that leads further. -/
def IsStep (name : Text) : Prop := name ≠ [] ∧ name ≠ ['.'] ∧ name ≠ Path.above

/-- A name of a file or a folder. -/
def IsName (name : Text) : Prop :=
  IsStep name ∧ '/' ∉ name ∧ '\x00' ∉ name ∧ isOverlong name = false

instance (name : Text) : Decidable (IsStep name) :=
  inferInstanceAs (Decidable (name ≠ [] ∧ name ≠ ['.'] ∧ name ≠ Path.above))

instance (name : Text) : Decidable (IsName name) :=
  inferInstanceAs (Decidable (IsStep name ∧ '/' ∉ name ∧ '\x00' ∉ name ∧ isOverlong name = false))

theorem step_of_isStep {name : Text} (h : IsStep name) (l : Location) :
    l.step name = l ++ [name] := by
  obtain ⟨hempty, hdot, habove⟩ := h
  rw [step, if_neg (not_or.2 ⟨hempty, hdot⟩), if_neg habove]

/-- A name with an ending behind it leads further, unless the name leads nowhere. -/
theorem isStep_append {name ending : Text} (hne : ending ≠ []) (hname : name ≠ [])
    (hdot : name ≠ ['.']) : IsStep (name ++ ending) := by
  obtain ⟨a, name, rfl⟩ := List.exists_cons_of_ne_nil hname
  obtain ⟨b, ending, rfl⟩ := List.exists_cons_of_ne_nil hne
  refine ⟨nofun, fun h => ?_, fun h => ?_⟩
  · have htail := (List.cons.inj h).2
    simp at htail
  · obtain ⟨rfl, htail⟩ := List.cons.inj h
    have hempty : name = [] := by
      rcases List.append_eq_cons_iff.1 htail with h | ⟨_, -, h⟩
      · exact h.1
      · simp at h
    exact hdot (congrArg _ hempty)

/-- A step that leaves a location leads elsewhere with an ending behind its name. -/
theorem step_append_ne {l : Location} {name ending : Text} (hne : ending ≠ [])
    (h : l.step name ≠ l) : l.step (name ++ ending) ≠ l.step name := by
  have hname : ¬ (name = [] ∨ name = ['.']) := fun hnowhere => h (if_pos hnowhere)
  have hstep := isStep_append hne (not_or.1 hname).1 (not_or.1 hname).2
  rw [step_of_isStep hstep, step, if_neg hname]
  split
  · intro heq
    have hlength := congrArg List.length heq
    simp at hlength
    omega
  · intro heq
    have hlast := List.singleton_inj.1 (List.append_cancel_left heq)
    exact hne (List.self_eq_append_right.1 hlast.symm)

/-- The way to a location holds no characters but those of its names and slashes. -/
theorem mem_intercalate {l : Location} {c : Char} (h : c ∈ List.intercalate ['/'] l) :
    c = '/' ∨ ∃ name ∈ l, c ∈ name := by
  induction l with
  | nil => cases h
  | cons name l ih =>
    by_cases hl : l = []
    · rw [hl, List.intercalate_singleton] at h
      exact .inr ⟨name, List.mem_cons_self, h⟩
    · rw [List.intercalate_cons_of_ne_nil hl, List.append_assoc, List.mem_append] at h
      rcases h with h | h
      · exact .inr ⟨name, List.mem_cons_self, h⟩
      · rcases List.mem_cons.1 h with h | h
        · exact .inl h
        · rcases ih h with h | ⟨k, hk, h⟩
          · exact .inl h
          · exact .inr ⟨k, List.mem_cons_of_mem _ hk, h⟩

/-- The way to a location begins with its first name. -/
theorem isAbsolute_intercalate {l : Location} (hne : l ≠ [])
    (hl : ∀ name ∈ l, name ≠ [] ∧ '/' ∉ name) :
    Path.isAbsolute (List.intercalate ['/'] l) = false := by
  obtain ⟨name, l, rfl⟩ := List.exists_cons_of_ne_nil hne
  obtain ⟨hempty, hslash⟩ := hl name List.mem_cons_self
  have hname : ∃ rest, List.intercalate ['/'] (name :: l) = name ++ rest := by
    by_cases hl : l = []
    · exact ⟨[], by rw [hl, List.intercalate_singleton, List.append_nil]⟩
    · exact ⟨['/'] ++ List.intercalate ['/'] l, by
        rw [List.intercalate_cons_of_ne_nil hl, List.append_assoc]⟩
  obtain ⟨rest, hrest⟩ := hname
  obtain ⟨c, name, rfl⟩ := List.exists_cons_of_ne_nil hempty
  have hc : '/' ≠ c := fun h => hslash (h ▸ List.mem_cons_self)
  rw [hrest, Path.isAbsolute_append hempty]
  simp [Path.isAbsolute, Text.startsWith, Text.after?, hc]

/-- A way is read off the path behind a folder. -/
theorem join_intercalate_inj {p : Text} {l m : Location} (hl : l ≠ []) (hm : m ≠ [])
    (hnames : ∀ name ∈ l, name ≠ [] ∧ '/' ∉ name) (hnames' : ∀ name ∈ m, name ≠ [] ∧ '/' ∉ name)
    (h : Path.join p (List.intercalate ['/'] l) = Path.join p (List.intercalate ['/'] m)) :
    l = m := by
  have hway : List.intercalate ['/'] l = List.intercalate ['/'] m := by
    rw [Path.join, Path.join, isAbsolute_intercalate hl hnames, isAbsolute_intercalate hm hnames',
      if_neg Bool.false_ne_true, if_neg Bool.false_ne_true] at h
    split at h
    · exact List.append_cancel_left h
    · exact (List.cons.inj (List.append_cancel_left h)).2
  rw [← List.splitOn_intercalate '/' (fun name hname => (hnames name hname).2) hl, hway,
    List.splitOn_intercalate '/' (fun name hname => (hnames' name hname).2) hm]

/-- Where a copy of a file is kept: beside it. -/
def backup (l : Location) : Location := l.dropLast ++ [l.getLastD [] ++ ".bak".toList]

theorem backup_concat (l : Location) (name : Text) :
    backup (l ++ [name]) = l ++ [name ++ ".bak".toList] := by
  simp [backup]

theorem exists_concat {l : Location} (h : l ≠ []) : ∃ init name, l = init ++ [name] :=
  ⟨l.dropLast, l.getLast h, (List.dropLast_concat_getLast h).symm⟩

theorem backup_ne {l : Location} (h : l ≠ []) : l.backup ≠ l := by
  obtain ⟨init, name, rfl⟩ := exists_concat h
  rw [backup_concat]
  intro heq
  have hname := List.append_cancel_left heq
  simp at hname

theorem backup_inj {l m : Location} (hl : l ≠ []) (hm : m ≠ []) (h : l.backup = m.backup) :
    l = m := by
  obtain ⟨init, name, rfl⟩ := exists_concat hl
  obtain ⟨init', name', rfl⟩ := exists_concat hm
  rw [backup_concat, backup_concat] at h
  obtain ⟨rfl, hname⟩ := List.append_inj' h rfl
  rw [List.append_cancel_right (List.cons.inj hname).1]

theorem backup_append {l : Location} (folder : Location) (h : l ≠ []) :
    (folder ++ l).backup = folder ++ l.backup := by
  obtain ⟨init, name, rfl⟩ := exists_concat h
  rw [← List.append_assoc, backup_concat, backup_concat, List.append_assoc]

/-- The way to a backup is the way to the file with an ending. -/
theorem intercalate_backup {l : Location} (h : l ≠ []) :
    List.intercalate ['/'] l.backup = List.intercalate ['/'] l ++ ".bak".toList := by
  obtain ⟨init, name, rfl⟩ := exists_concat h
  rw [backup_concat]
  induction init with
  | nil => rw [List.nil_append, List.nil_append, List.intercalate_singleton,
      List.intercalate_singleton]
  | cons k init ih =>
    rw [List.cons_append, List.cons_append,
      List.intercalate_cons_of_ne_nil (List.concat_ne_nil _ _),
      List.intercalate_cons_of_ne_nil (List.concat_ne_nil _ _), ih (List.concat_ne_nil _ _)]
    simp only [List.append_assoc]

theorem from?_eq_some_iff {folder l m : Location} : from? folder l = some m ↔ l = folder ++ m := by
  induction folder generalizing l with
  | nil => rw [from?, Option.some.injEq, List.nil_append]
  | cons a folder ih =>
    cases l with
    | nil => exact iff_of_false nofun nofun
    | cons b l =>
      rw [from?]
      split
      · next h => rw [ih, List.cons_append, List.cons.injEq, h, eq_self, true_and]
      · next h => exact iff_of_false nofun fun heq => h (List.cons.inj heq).1.symm

end Location

namespace FileTree

open Location (IsName)

/-! ## Proper trees -/

/-- What holds of the files and folders on a disk. -/
structure IsProper (t : FileTree) : Prop where
  names : ∀ f ∈ t.files, ∀ name ∈ f.1, IsName name
  folder_names : ∀ l ∈ t.folders, ∀ name ∈ l, IsName name
  nodup : (t.files.map (·.1)).Nodup
  nodup_folders : t.folders.Nodup
  apart : ∀ f ∈ t.files, t.isFolderAt f.1 = false
  above_file : ∀ f ∈ t.files, t.isFolderAt f.1.dropLast = true
  above_folder : ∀ l ∈ t.folders, t.isFolderAt l.dropLast = true

/-- The way from a folder to a file below it. -/
structure IsBelow (t : FileTree) (above l : Location) : Prop where
  ne_nil : l ≠ []
  names : ∀ name ∈ l, IsName name
  folder : t.isFolderAt (above ++ l).dropLast = true
  file : (t.fileAt? (above ++ l)).isSome = true

variable {t : FileTree} {p : Text} {l m : Location} {bytes : Bytes}

theorem exists_mem_of_fileAt? (h : (t.fileAt? l).isSome = true) : ∃ f ∈ t.files, f.1 = l := by
  obtain ⟨f, hf, hl⟩ := List.lookup_isSome_iff.1 h
  exact ⟨f, hf, (eq_of_beq hl).symm⟩

theorem isSome_fileAt?_of_mem {f : Location × Bytes} (h : f ∈ t.files) :
    (t.fileAt? f.1).isSome = true :=
  List.lookup_isSome_iff.2 ⟨f, h, beq_self_eq_true f.1⟩

/-- A path to a file ends with a step to it. An ending behind the path is one behind the name. -/
theorem exists_step_of_locate (h : t.locate p = .ok l) (hl : t.isFolderAt l = false) :
    ∃ k name, t.isFolderAt k = true ∧ l = k.step name ∧ k.step name ≠ k ∧
      ∀ ending, '/' ∉ ending → ∀ m, t.locate (p ++ ending) = .ok m →
        m = k.step (name ++ ending) := by
  obtain ⟨-, hempty, hfollow⟩ := locate_eq_ok_iff.1 h
  obtain ⟨init, last, hnames⟩ := Path.exists_names_append p
  have hp : Path.names p = init ++ [last] := by
    have hnil := hnames [] List.not_mem_nil
    rwa [List.append_nil, List.append_nil] at hnil
  rw [hp, follow_append_eq_ok_iff] at hfollow
  obtain ⟨k, hk, hlast⟩ := hfollow
  obtain ⟨hfolder, -, hstep⟩ := follow_cons_eq_ok_iff.1 hlast
  obtain rfl := Except.ok.inj hstep
  refine ⟨k, last, hfolder, rfl, fun heq => ?_, fun ending hslash m hm => ?_⟩
  · rw [heq, hfolder] at hl
    cases hl
  · obtain ⟨-, -, hfollow⟩ := locate_eq_ok_iff.1 hm
    have hstart : t.start (p ++ ending) = t.start p := by
      rw [start, start, Path.isAbsolute_append hempty]
    rw [hnames ending hslash, hstart, follow_append_eq_ok_iff] at hfollow
    obtain ⟨k', hk', hlast'⟩ := hfollow
    obtain rfl := Except.ok.inj (hk.symm.trans hk')
    obtain ⟨-, -, hstep'⟩ := follow_cons_eq_ok_iff.1 hlast'
    exact (Except.ok.inj hstep').symm

/-- A path to a file does not lead there with an ending behind it. -/
theorem locate_append_ne (h : t.locate p = .ok l) (hl : t.isFolderAt l = false) {ending : Text}
    (hne : ending ≠ []) (hslash : '/' ∉ ending) : t.locate (p ++ ending) ≠ .ok l := by
  obtain ⟨k, name, -, rfl, hstep, hlocate⟩ := exists_step_of_locate h hl
  exact fun hm => Location.step_append_ne hne hstep (hlocate ending hslash _ hm).symm

/-! ## A tree as a disk -/

instance : LawfulDisk FileTree where
  read_ok t p bytes h := by
    obtain ⟨l, hfind⟩ := exists_find_of_read h
    obtain ⟨hl, -, hfile⟩ := find_eq_ok_iff.1 hfind
    exact ⟨l, place?_eq_some_iff.2 hl, hfile⟩
  copy_frame t source target h := by
    change Disk.ChangesOnly t (t.attempt (t.copy source target)).1 _
    rcases hcopy : t.copy source target with e | t'
    · exact Disk.ChangesOnly.refl t _
    · obtain ⟨bytes, l, -, hl, -, rfl⟩ := (copy_eq_ok_iff h).1 hcopy
      exact changesOnly_put hl bytes
  copy_source t source target h l hl := by
    change fileAt? (t.attempt (t.copy source target)).1 l = t.fileAt? l
    rcases hcopy : t.copy source target with e | t'
    · rfl
    · obtain ⟨bytes, m, hread, -, -, rfl⟩ := (copy_eq_ok_iff h).1 hcopy
      obtain ⟨k, hfind⟩ := exists_find_of_read hread
      obtain ⟨hk, -, hfile⟩ := find_eq_ok_iff.1 hfind
      obtain rfl := Except.ok.inj (hk.symm.trans (place?_eq_some_iff.1 hl))
      refine (fileAt?_put t m k bytes).trans ?_
      split
      · exact hfile.symm
      · rfl
  copy_ok t source target bytes h hread hcopied := by
    change (t.attempt (t.copy source target)).2 = .ok () at hcopied
    change Disk.Holds (t.attempt (t.copy source target)).1 target bytes
    rcases hcopy : t.copy source target with e | t'
    · rw [hcopy] at hcopied
      cases hcopied
    · obtain ⟨bytes', l, hread', hl, -, rfl⟩ := (copy_eq_ok_iff h).1 hcopy
      obtain rfl : bytes = bytes' := Except.ok.inj (hread.symm.trans hread')
      exact holds_put hl bytes
  copy_apart t source ending bytes hne hslash hread _ heq := by
    obtain ⟨l, hfind⟩ := exists_find_of_read hread
    obtain ⟨hl, hfolder, -⟩ := find_eq_ok_iff.1 hfind
    rw [place?_eq_some_iff.2 hl, place?_eq_some_iff] at heq
    exact locate_append_ne hl hfolder hne hslash heq
  write_frame t p bytes := by
    change Disk.ChangesOnly t (t.attempt (t.write p bytes)).1 _
    rcases hwrite : t.write p bytes with e | t'
    · exact Disk.ChangesOnly.refl t _
    · obtain ⟨l, hl, -, rfl⟩ := write_eq_ok_iff.1 hwrite
      exact changesOnly_put hl bytes
  write_ok t p bytes hwritten := by
    change (t.attempt (t.write p bytes)).2 = .ok () at hwritten
    change Disk.Holds (t.attempt (t.write p bytes)).1 p bytes
    rcases hwrite : t.write p bytes with e | t'
    · rw [hwrite] at hwritten
      cases hwritten
    · obtain ⟨l, hl, -, rfl⟩ := write_eq_ok_iff.1 hwrite
      exact holds_put hl bytes

namespace IsProper

theorem isFolderAt_dropLast (ht : t.IsProper) (h : t.isFolderAt l = true) :
    t.isFolderAt l.dropLast = true := by
  rw [isFolderAt, Bool.or_eq_true] at h
  rcases h with hempty | hmem
  · rw [List.isEmpty_iff.1 hempty]
    rfl
  · exact ht.above_folder l (by simpa using hmem)

/-- What a folder stands in is a folder. -/
theorem isFolderAt_of_append (ht : t.IsProper) (h : t.isFolderAt (l ++ m) = true) :
    t.isFolderAt l = true := by
  induction m using List.reverseRecOn with
  | nil => rwa [List.append_nil] at h
  | append_singleton m name ih =>
    have hdrop := ht.isFolderAt_dropLast h
    rw [← List.append_assoc, List.dropLast_concat] at hdrop
    exact ih hdrop

/-- The way from a location to another below it leads there. -/
theorem follow_names (ht : t.IsProper) {names : List Text} (hnames : ∀ name ∈ names, IsName name)
    (hfolder : t.isFolderAt (m ++ names).dropLast = true) :
    t.follow m names = .ok (m ++ names) := by
  induction names generalizing m with
  | nil => rw [List.append_nil]; rfl
  | cons name names ih =>
    rw [List.forall_mem_cons] at hnames
    have hm : t.isFolderAt m = true := by
      rw [List.dropLast_append_of_ne_nil (List.cons_ne_nil name names)] at hfolder
      exact ht.isFolderAt_of_append hfolder
    have hsplit : m ++ name :: names = m ++ [name] ++ names := by simp
    rw [hsplit] at hfolder ⊢
    refine follow_cons_eq_ok_iff.2 ⟨hm, hnames.1.2.2.2, ?_⟩
    rw [Location.step_of_isStep hnames.1.1]
    exact ih hnames.2 hfolder

theorem isFolderAt_of_fileAt? (ht : t.IsProper) (h : (t.fileAt? l).isSome = true) :
    t.isFolderAt l = false := by
  obtain ⟨f, hf, rfl⟩ := exists_mem_of_fileAt? h
  exact ht.apart f hf

/-- There is no file at the root. -/
theorem ne_nil_of_fileAt? (ht : t.IsProper) (h : (t.fileAt? l).isSome = true) : l ≠ [] := by
  rintro rfl
  have hfolder := ht.isFolderAt_of_fileAt? h
  cases hfolder

/-- The last step to a file adds its name. -/
theorem isStep_of_step (ht : t.IsProper) {name : Text} (hm : t.isFolderAt m = true)
    (h : t.isFolderAt (m.step name) = false) : Location.IsStep name := by
  rw [Location.step] at h
  by_cases hnowhere : name = [] ∨ name = ['.']
  · rw [if_pos hnowhere, hm] at h
    cases h
  · rw [if_neg hnowhere] at h
    by_cases habove : name = Path.above
    · rw [if_pos habove, ht.isFolderAt_dropLast hm] at h
      cases h
    · exact ⟨(not_or.1 hnowhere).1, (not_or.1 hnowhere).2, habove⟩

/-- A path to a file, with the ending of a copy behind it, leads to where the copy is kept, if
anywhere. -/
theorem eq_backup_of_locate (ht : t.IsProper) (h : t.locate p = .ok l)
    (hl : t.isFolderAt l = false) (hm : t.locate (p ++ ".bak".toList) = .ok m) : m = l.backup := by
  obtain ⟨k, name, hfolder, rfl, hne, hlocate⟩ := exists_step_of_locate h hl
  have hstep := ht.isStep_of_step hfolder hl
  rw [hlocate _ (by decide) m hm, Location.step_of_isStep hstep, Location.backup_concat,
    Location.step_of_isStep (Location.isStep_append (by decide) hstep.1 hstep.2.1)]

/-- The way from a folder to what stands below it, behind a path to the folder. -/
theorem locate_join (ht : t.IsProper) (h : t.locate p = .ok m) (hl : IsBelow t m l) :
    t.locate (Path.join p (List.intercalate ['/'] l)) = .ok (m ++ l) := by
  obtain ⟨hne, hnames, hfolder, -⟩ := hl
  obtain ⟨hnull, hempty, hfollow⟩ := locate_eq_ok_iff.1 h
  have hway : Path.names (List.intercalate ['/'] l) = l :=
    List.splitOn_intercalate '/' (fun name hname => (hnames name hname).2.1) hne
  have hrelative := Location.isAbsolute_intercalate hne fun name hname =>
    ⟨(hnames name hname).1.1, (hnames name hname).2.1⟩
  obtain ⟨front, hfront, hjoin⟩ := Path.exists_join hempty hrelative
  have hprefix : ∃ slash, front ++ '/' :: List.intercalate ['/'] l =
      p ++ (slash ++ List.intercalate ['/'] l) := by
    rcases hfront with rfl | rfl
    · exact ⟨['/'], rfl⟩
    · exact ⟨[], by simp⟩
  have hnull' : '\x00' ∉ front := by
    rcases hfront with rfl | rfl
    · exact hnull
    · exact fun hmem => hnull (List.mem_append_left _ hmem)
  rw [hjoin]
  refine locate_eq_ok_iff.2 ⟨?_, List.append_ne_nil_of_right_ne_nil _ (List.cons_ne_nil _ _), ?_⟩
  · rw [List.mem_append, List.mem_cons, not_or, not_or]
    refine ⟨hnull', by decide, fun hmem => ?_⟩
    rcases Location.mem_intercalate hmem with hslash | ⟨name, hname, hmem⟩
    · exact absurd hslash (by decide)
    · exact (hnames name hname).2.2.1 hmem
  · have hstart : t.start (front ++ '/' :: List.intercalate ['/'] l) = t.start p := by
      obtain ⟨slash, hslash⟩ := hprefix
      rw [start, start, hslash, Path.isAbsolute_append hempty]
    rw [hstart, Path.names_append_slash, hway, follow_append_eq_ok_iff]
    refine ⟨m, ?_, ht.follow_names hnames hfolder⟩
    rcases hfront with rfl | rfl
    · exact hfollow
    · -- the empty name behind the last slash leads nowhere
      rw [Path.names_append_slash, follow_append_eq_ok_iff] at hfollow
      obtain ⟨k, hk, hlast⟩ := hfollow
      obtain ⟨-, -, hstep⟩ := follow_cons_eq_ok_iff.1 hlast
      rwa [← Except.ok.inj hstep]

end IsProper

end FileTree

end DoxygenMarkdown

import DoxygenMarkdown.Proofs.Batch.Arguments
import DoxygenMarkdown.Proofs.Batch.Selection
import DoxygenMarkdown.Proofs.Text.Utf8

/-!
# A dry run tells what a run does

With the same arguments but for a flag, a dry run and a run go through the same files, name the same
of them, count the same and end with the same exit status, although the run changes files as it goes
on: **`command_dryRun`**. What is named has changed, and nothing else has, backups apart.

* The flag changes nothing about what is asked for (`options_eq_of_withDryRun`).
* The selected files are not in each other's way (`pairwise_apart`), so the run says what can be
  told beforehand (`convertPaths_real`), and that is what the dry run says (`convertPaths_dryRun`).
* What is printed is put together from what is said of each file (`output_report`,
  `errors_report`).
* A file whose converted text is a different one gets different bytes (`encode_convertedText_ne`).

A dry run cannot tell that a file will not be written. Nor does it see that two paths lead to one
file, which the run will have converted when it comes by for the second time. So this is about runs
that come to their end, on disks where no second path leads to a file that is written
(`command_dryRun_is_wrong`).
-/

namespace DoxygenMarkdown.Batch

open Disk (Holds ChangesOnly)
open Disk.View (place? fileAt?)

/-! ## What is foretold -/

section Foretold

variable {σ ι ε : Type} [Disk σ ε] [Disk.View σ ι]

/-- Some comment of a file cannot be read. -/
def HasUnreadable (disk : σ) (path : Text) : Prop :=
  ∃ bytes, Disk.read disk path = .ok bytes ∧
    ∃ r ∈ Bindings.runs (textOf bytes), ∃ e, renderComment 1 r.comment = .error e

/-- What is said of a path that leads to nothing. -/
def notFound (path : Text) : Report where
  exitCode := 1
  output := []
  errors := "error: ".toList ++ path ++ " not found\n".toList

/-- What a dry run and a run say of files on a disk, and what the run makes of the disk. -/
structure IsForetold (disk : σ) (o : Options) (paths : List Text) (disk' : σ) (dry real : Report) :
    Prop where
  readable : ∀ p ∈ paths, ∃ bytes, Disk.read disk p = .ok bytes
  /-- The dry run names the files whose text would change, in order, and counts them. -/
  dryOutput : dry.output =
    let changed := paths.filter (IsChanged (!o.keepIndent) disk)
    changed.flatMap (fun p => "[dry-run] converted: ".toList ++ p ++ ['\n']) ++
      "\n".toList ++ (toString changed.length).toList ++ "/".toList ++
      (toString paths.length).toList ++ " files would be modified\n".toList
  /-- The run names and counts the same. -/
  output : real.output =
    let changed := paths.filter (IsChanged (!o.keepIndent) disk)
    changed.flatMap (fun p => "converted: ".toList ++ p ++ ['\n']) ++
      "\n".toList ++ (toString changed.length).toList ++ "/".toList ++
      (toString paths.length).toList ++ " files modified\n".toList
  /-- Both tell of each comment that cannot be read. -/
  errors : dry.errors = real.errors ∧ real.errors = paths.flatMap fun p =>
    (mistakes disk p).flatMap fun e => "error: ".toList ++ p ++ ": ".toList ++ e.message ++ ['\n']
  exitCode : dry.exitCode = real.exitCode ∧ (real.exitCode = 0 ∨ real.exitCode = 1) ∧
    (real.exitCode = 1 ↔ ∃ p ∈ paths, HasUnreadable disk p)
  /-- The files that are named hold their converted text, their backups what they held, and all
  others are as they were. -/
  run : IsRun o.mode disk disk' (paths.filter (IsChanged (!o.keepIndent) disk))
  /-- So a file has changed if it is named, and only then. -/
  changed : ∀ p ∈ paths, ∀ l, place? disk p = some l →
    (fileAt? disk' l ≠ fileAt? disk l ↔ IsChanged (!o.keepIndent) disk p)

end Foretold

/-! ## What is printed -/

section Printed

variable {σ ε : Type} [Disk σ ε] {disk : σ} {trimLines : Bool} {paths : List Text}

theorem changeLine_true :
    changeLine true = fun p => "[dry-run] converted: ".toList ++ p ++ ['\n'] := by
  funext p
  simp [changeLine, line]

theorem changeLine_false : changeLine false = fun p => "converted: ".toList ++ p ++ ['\n'] := by
  funext p
  simp [changeLine, line]

theorem countLine_true (changed total : Nat) :
    countLine true changed total = "\n".toList ++ (toString changed).toList ++ "/".toList ++
      (toString total).toList ++ " files would be modified\n".toList := by
  simp [countLine, line]

theorem countLine_false (changed total : Nat) :
    countLine false changed total = "\n".toList ++ (toString changed).toList ++ "/".toList ++
      (toString total).toList ++ " files modified\n".toList := by
  simp [countLine, line]

/-- The files that are to change are those whose outlook says so. -/
theorem filter_outlook (trimLines : Bool) (disk : σ) (paths : List Text) :
    (paths.map (outlook trimLines disk)).filter (·.changed) =
      (paths.filter (IsChanged trimLines disk)).map (outlook trimLines disk) := by
  rw [List.filter_map]
  exact congrArg _ (List.filter_congr fun p _ => changed_outlook trimLines disk p)

/-- The files whose text changes are named and counted. -/
theorem output_report (dryRun : Bool) (trimLines : Bool) (disk : σ) (paths : List Text) :
    (report dryRun (paths.map (outlook trimLines disk))).output =
      (paths.filter (IsChanged trimLines disk)).flatMap (changeLine dryRun) ++
        countLine dryRun (paths.filter (IsChanged trimLines disk)).length paths.length := by
  simp only [report, filter_outlook, List.flatMap_map, path_outlook, List.length_map]

/-- The comments that cannot be read are told of, file by file. -/
theorem errors_report (dryRun : Bool) (trimLines : Bool) (disk : σ) (paths : List Text) :
    (report dryRun (paths.map (outlook trimLines disk))).errors = paths.flatMap fun p =>
      (mistakes disk p).flatMap fun e =>
        "error: ".toList ++ p ++ ": ".toList ++ e.message ++ ['\n'] := by
  simp only [report, List.flatMap_map, path_outlook, errorLines, errors_outlook]
  simp [line]

/-- A file has a comment that cannot be read if there is something to tell of. -/
theorem mistakes_ne_nil_iff {p : Text} : mistakes disk p ≠ [] ↔ HasUnreadable disk p := by
  rw [mistakes, HasUnreadable]
  cases Disk.read disk p with
  | error e =>
    refine iff_of_false (fun h => h rfl) ?_
    rintro ⟨_, h, -⟩
    cases h
  | ok bytes =>
    have herror (r : Bindings.DocRun) :
        r.error? ≠ none ↔ ∃ e, renderComment 1 r.comment = .error e := by
      rw [Bindings.DocRun.error?]
      cases renderComment 1 r.comment with
      | error e => exact iff_of_true (Option.some_ne_none _) ⟨e, rfl⟩
      | ok rendering =>
        refine iff_of_false (fun h => h rfl) ?_
        rintro ⟨_, h⟩
        cases h
    simp only [ne_eq, List.filterMap_eq_nil_iff, not_forall, exists_prop, Except.ok.injEq,
      exists_eq_left']
    exact exists_congr fun r => and_congr_right fun _ => herror r

/-- A report on files fails if one of them has a comment that cannot be read. -/
theorem exitCode_report (dryRun : Bool) (trimLines : Bool) (disk : σ) (paths : List Text) :
    (report dryRun (paths.map (outlook trimLines disk))).exitCode = 1 ↔
      ∃ p ∈ paths, HasUnreadable disk p := by
  have hcode : ∀ b : Bool, (if b = true then 1 else 0) = 1 ↔ b = true := by decide
  have hany (events : List Bindings.Event) :
      (events.any fun event => event.error?.isSome) = true ↔
        events.filterMap Bindings.Event.error? ≠ [] := by
    simp [Option.isSome_iff_ne_none]
  rw [report, hcode, List.any_map, List.any_eq_true]
  refine exists_congr fun p => and_congr_right fun _ => ?_
  rw [Function.comp_apply, hany, errors_outlook, mistakes_ne_nil_iff]

end Printed

/-! ## What changes -/

/-- Bytes change where the text does. -/
theorem encode_convertedText_ne {trimLines : Bool} {bytes : Bytes}
    (h : convertedText trimLines bytes ≠ textOf bytes) :
    Utf8.encode (convertedText trimLines bytes) ≠ bytes := by
  intro hbytes
  refine h (Bindings.text_convert_eq_of_unifyBreaks ?_)
  -- the text of the bytes that were written
  conv_rhs => rw [textOf, ← hbytes, Utf8.decode_encode]
  rfl

variable {σ ι ε : Type} [Disk σ ε] [Disk.View σ ι] [LawfulDisk σ] {disk : σ} {o : Options}

/-- A run changes the files that it names and no others. -/
theorem fileAt?_ne_iff {mode : Mode} {disk' : σ} {paths : List Text}
    (hfound : ∀ p ∈ paths, ∃ bytes, Disk.read disk p = .ok bytes)
    (hapart : paths.Pairwise (Apart mode disk))
    (hrun : IsRun mode disk disk' (paths.filter (IsChanged mode.trimLines disk))) {p : Text}
    (hp : p ∈ paths) {l : ι} (hl : place? disk p = some l) :
    fileAt? disk' l ≠ fileAt? disk l ↔ IsChanged mode.trimLines disk p := by
  obtain ⟨bytes, hread⟩ := hfound p hp
  constructor
  · intro hne
    by_contra hnot
    -- no other file has this one in its footprint
    refine hne (hrun.others.fileAt?_eq l ?_)
    rintro ⟨q, hq, hfoot⟩
    obtain ⟨hq, hchanged⟩ := List.mem_filter.1 hq
    have hqp : q ≠ p := by
      rintro rfl
      exact hnot (of_decide_eq_true hchanged)
    exact ((hapart.forall hq hp hqp).1 l ⟨of_decide_eq_true hchanged, hfoot⟩).1 hl
  · intro hchanged heq
    have hne := (isChanged_iff hread).1 hchanged
    obtain ⟨bytes', hread', ⟨m, hm, hnew⟩, -⟩ :=
      hrun.written p (List.mem_filter.2 ⟨hp, decide_eq_true hchanged⟩)
    obtain ⟨k, hk, hold⟩ := LawfulDisk.read_ok disk hread
    obtain rfl := Except.ok.inj (hread.symm.trans hread')
    rw [hrun.others.place?_eq] at hm
    obtain rfl := Option.some.inj (hl.symm.trans hm)
    obtain rfl := Option.some.inj (hl.symm.trans hk)
    rw [heq, hold] at hnew
    exact encode_convertedText_ne hne (Option.some.inj hnew).symm

/-! ## The dry run and the run -/

theorem selectedFiles_eq_none_iff {σ ε : Type} [Disk σ ε] {disk : σ} {o : Options} :
    selectedFiles disk o = none ↔
      Disk.isFile disk o.path = false ∧ Disk.isFolder disk o.path = false := by
  rw [selectedFiles]
  cases Disk.isFile disk o.path <;> cases Disk.isFolder disk o.path <;> simp

/-- A run that comes to its end reports on all selected files. -/
theorem run_of_selectedFiles {σ ε : Type} [Disk σ ε] {disk : σ} {o : Options} {paths : List Text}
    (h : selectedFiles disk o = some paths)
    (hstopped : (convertPaths o.mode disk paths).stopped = none) :
    run disk o = ⟨(convertPaths o.mode disk paths).tree,
      (convertPaths o.mode disk paths).handled.flatMap fun h => Bindings.logOf true h.events,
      .ok (report o.dryRun (convertPaths o.mode disk paths).handled)⟩ := by
  rw [run, h]
  simp only [hstopped]

/-- A run that reports has come to its end. -/
theorem stopped_eq_none {σ ε : Type} [Disk σ ε] {disk : σ} {o : Options} {paths : List Text}
    (h : selectedFiles disk o = some paths) {r : Report} (hreport : (run disk o).report = .ok r) :
    (convertPaths o.mode disk paths).stopped = none := by
  cases hstopped : (convertPaths o.mode disk paths).stopped with
  | none => rfl
  | some stop =>
    rw [run, h] at hreport
    simp only [hstopped] at hreport
    cases hreport

/-- A dry run leaves the disk as it is. -/
theorem tree_run_dryRun {σ ε : Type} [Disk σ ε] (disk : σ) (o : Options) (hdry : o.dryRun = true) :
    (run disk o).tree = disk := by
  rw [run]
  split
  · rfl
  · next paths _ =>
    have hmode : o.mode.dryRun = true := hdry
    have htree := (convertPaths_dryRun hmode disk paths).1
    dsimp only
    split <;> exact htree

/-- Where a path leads nowhere, this is said, and nothing else is done. -/
theorem run_eq_notFound {σ ε : Type} [Disk σ ε] {disk : σ} {o : Options}
    (h : selectedFiles disk o = none) : run disk o = ⟨disk, [], .ok (notFound o.path)⟩ := by
  rw [run, h]
  simp [notFound, line]

/-- Where files are selected, a dry run tells what a run does that comes to its end. -/
theorem isForetold_of_selectedFiles {paths : List Text} (h : selectedFiles disk o = some paths)
    (hreal : o.dryRun = false) (hproper : (Disk.below disk o.path).IsProper)
    (hroom : o.backup = true → HasRoom disk o) (hlinks : HasNoLinks disk o) {r' : Report}
    (hreport : (run disk o).report = .ok r') :
    ∃ r, (run disk { o with dryRun := true }).report = .ok r ∧
      (run disk { o with dryRun := true }).log = (run disk o).log ∧
      IsForetold disk o paths (run disk o).tree r r' := by
  have hselection : selection disk o = paths := by rw [selection, h]; rfl
  have hselectedDry : selectedFiles disk { o with dryRun := true } = some paths := h
  have hapart : paths.Pairwise (Apart o.mode disk) :=
    hselection ▸ pairwise_apart hroom hlinks hproper
  have hroom' : o.mode.backup = true → ∀ p ∈ paths, Disk.isFolder disk (backupPath p) = false :=
    fun hb p hp => (hroom hb p (hselection.symm ▸ hp)).2
  have hstopped := stopped_eq_none h hreport
  obtain ⟨hfound, hhandled, hrun⟩ := convertPaths_real hreal hroom' hapart hstopped
  have hdryMode : { o with dryRun := true }.mode.dryRun = true := rfl
  obtain ⟨hstoppedDry, hhandledDry⟩ := (convertPaths_dryRun hdryMode disk paths).2 hfound
  rw [run_of_selectedFiles h hstopped, hhandled] at hreport ⊢
  rw [run_of_selectedFiles hselectedDry hstoppedDry, hhandledDry]
  rw [hreal] at hreport ⊢
  obtain rfl := Except.ok.inj hreport
  refine ⟨_, rfl, rfl, hfound, ?_, ?_, ⟨?_, ?_⟩, ⟨?_, ?_, ?_⟩, hrun,
    fun p hp l hl => fileAt?_ne_iff hfound hapart hrun hp hl⟩
  · rw [output_report, changeLine_true, countLine_true]
    simp only [List.append_assoc]
    rfl
  · rw [output_report, changeLine_false, countLine_false]
    simp only [List.append_assoc]
    rfl
  · rw [errors_report, errors_report]
  · exact errors_report false _ disk paths
  · rfl
  · rw [report]
    split
    · exact .inr rfl
    · exact .inl rfl
  · exact exitCode_report false _ disk paths

/-- **A dry run tells what a run does.** It leaves the disk as it is, and if the run with the same
arguments comes to its end, both name the same files, in the same order, count the same and end with
the same exit status. The run then has changed the files that it names, and no others but their
backups. -/
theorem command_dryRun (disk : σ) {arguments more : List Text} {o' : Options}
    (hflags : WithDryRun arguments more) (h : readArguments arguments = .ok o)
    (h' : readArguments more = .ok o') (hreal : o.dryRun = false) (hdry : o'.dryRun = true)
    (hproper : (Disk.below disk o.path).IsProper) (hroom : o.backup = true → HasRoom disk o)
    (hlinks : HasNoLinks disk o) :
    readArguments ("--dry-run".toList :: arguments) = .ok { o with dryRun := true } ∧
    ∃ dry real, command disk more = .ok dry ∧ command disk arguments = .ok real ∧
      dry.tree = disk ∧
      (Disk.isFile disk o.path = false → Disk.isFolder disk o.path = false →
        dry.report = .ok (notFound o.path) ∧ real.report = .ok (notFound o.path) ∧
          real.tree = disk) ∧
      ∀ paths, selectedFiles disk o = some paths → ∀ r', real.report = .ok r' →
        ∃ r, dry.report = .ok r ∧ dry.log = real.log ∧
          IsForetold disk o paths real.tree r r' := by
  have hoptions : o' = { o with dryRun := true } := by
    rw [options_eq_of_withDryRun hflags h h', hdry]
  have hcommand : command disk arguments = .ok (run disk o) := by rw [command, h]; rfl
  have hcommandDry : command disk more = .ok (run disk { o with dryRun := true }) := by
    rw [command, h', hoptions]
    rfl
  refine ⟨readArguments_dryRun_cons h, _, _, hcommandDry, hcommand, tree_run_dryRun disk _ rfl,
    fun hfile hfolder => ?_, fun paths hselected r' hreport => ?_⟩
  · have hnone : selectedFiles disk o = none := selectedFiles_eq_none_iff.2 ⟨hfile, hfolder⟩
    have hnoneDry : selectedFiles disk { o with dryRun := true } = none := hnone
    rw [run_eq_notFound hnone, run_eq_notFound hnoneDry]
    exact ⟨rfl, rfl, rfl⟩
  · exact isForetold_of_selectedFiles hselected hreal hproper hroom hlinks hreport

/-- A folder with a file that changes, one with a comment that cannot be read, and one without
comments. -/
def mixedFolder : FileTree where
  folders := [["src".toList]]
  files := [
    (["src".toList, "a.rs".toList], briefFile),
    (["src".toList, "b.rs".toList], Utf8.encode "#[doc = \"@param[x\"]".toList),
    (["src".toList, "c.rs".toList], Utf8.encode "fn f".toList)]

theorem isProper_mixedFolder : mixedFolder.IsProper := by constructor <;> decide

theorem selectedFiles_mixedFolder :
    selectedFiles mixedFolder ⟨"src".toList, [".rs".toList], false, true, false⟩ =
      some ["src/a.rs".toList, "src/b.rs".toList, "src/c.rs".toList] := by
  have hbelow : Disk.below mixedFolder "src".toList =
      .file "a.rs".toList (.file "b.rs".toList (.file "c.rs".toList .nil)) := by decide
  have hwalk : (Disk.below mixedFolder "src".toList).walk =
      [["a.rs".toList], ["b.rs".toList], ["c.rs".toList]] := by
    rw [hbelow]
    cbv
  exact (selectedFiles_of_isFolder (by decide) (by decide) hwalk).trans (by decide)

/-- The file that changes is named and gets a backup, and the comment that cannot be read makes both
runs fail. -/
theorem command_dryRun_mixedFolder :
    ∃ dry real r r',
      command mixedFolder ["--backup".toList, "--dry".toList, "src".toList] = .ok dry ∧
      command mixedFolder ["--backup".toList, "src".toList] = .ok real ∧
      dry.tree = mixedFolder ∧ dry.report = .ok r ∧ real.report = .ok r' ∧
      r.output =
        "[dry-run] converted: src/a.rs\n\n1/3 files would be modified\n".toList ∧
      r'.output = "converted: src/a.rs\n\n1/3 files modified\n".toList ∧
      r'.errors = ("error: src/b.rs: line 1: unexpected 'x', expected one of: " ++
        "in], out], in,out], out,in]\n").toList ∧
      r.errors = r'.errors ∧ r.exitCode = 1 ∧ r'.exitCode = 1 ∧
      Holds real.tree "src/a.rs".toList (Utf8.encode "#[doc = \"x\"]".toList) ∧
      Holds real.tree "src/a.rs.bak".toList (Utf8.encode "#[doc = \"@brief x\"]".toList) := by
  let o : Options := ⟨"src".toList, [".rs".toList], false, true, false⟩
  have hselection : selection mixedFolder o =
      ["src/a.rs".toList, "src/b.rs".toList, "src/c.rs".toList] := by
    rw [selection, selectedFiles_mixedFolder]
    rfl
  have hroom : HasRoom mixedFolder o := by
    rw [HasRoom, hselection]
    decide
  have hflags : WithDryRun ["--backup".toList, "src".toList]
      ["--backup".toList, "--dry".toList, "src".toList] :=
    .cons _ (.flag (by decide) (.cons _ .nil))
  have harguments : readArguments ["--backup".toList, "src".toList] = .ok o := rfl
  have hmore : readArguments ["--backup".toList, "--dry".toList, "src".toList] =
      .ok { o with dryRun := true } := rfl
  obtain ⟨-, dry, real, hdry, hreal, htree, -, hforetold⟩ :=
    command_dryRun mixedFolder hflags harguments hmore rfl rfl
      (isProper_mixedFolder.isProper_below _) (fun _ => hroom)
      (hasNoLinks_of_isProper isProper_mixedFolder o)
  obtain rfl : run mixedFolder o = real := Except.ok.inj hreal
  have hstopped : (convertPaths o.mode mixedFolder
      ["src/a.rs".toList, "src/b.rs".toList, "src/c.rs".toList]).stopped = none := by
    decide +kernel
  have hreport := congrArg Outcome.report (run_of_selectedFiles selectedFiles_mixedFolder hstopped)
  obtain ⟨r, hr, -, hsays⟩ := hforetold _ selectedFiles_mixedFolder _ hreport
  have hchanged : ["src/a.rs".toList, "src/b.rs".toList, "src/c.rs".toList].filter
      (IsChanged (!o.keepIndent) mixedFolder) = ["src/a.rs".toList] := by decide +kernel
  have hunreadable : ∃ p ∈ ["src/a.rs".toList, "src/b.rs".toList, "src/c.rs".toList],
      HasUnreadable mixedFolder p := by
    refine ⟨"src/b.rs".toList, by simp, mistakes_ne_nil_iff.1 ?_⟩
    decide +kernel
  obtain ⟨bytes, hbytes, hnew, hbackup⟩ := hsays.run.written "src/a.rs".toList (by
    rw [hchanged]
    exact List.mem_cons_self)
  have hread : Disk.read mixedFolder "src/a.rs".toList = .ok briefFile := rfl
  obtain rfl := Except.ok.inj (hread.symm.trans hbytes)
  have hexit := hsays.exitCode.2.2.2 hunreadable
  refine ⟨dry, _, r, _, hdry, hreal, htree, hr, hreport, ?_, ?_, ?_, hsays.errors.1,
    hsays.exitCode.1.trans hexit, hexit, ?_, hbackup rfl⟩
  · refine hsays.dryOutput.trans ?_
    rw [hchanged]
    decide
  · refine hsays.output.trans ?_
    rw [hchanged]
    decide
  · refine hsays.errors.2.trans ?_
    decide +kernel
  · have htext : convertedText o.mode.trimLines briefFile = "#[doc = \"x\"]".toList := by
      decide +kernel
    rwa [htext] at hnew

/-- A folder with two names for one file. -/
def linkedFolder : LinkedTree where
  tree := { files := [(["a.rs".toList], briefFile), (["b.rs".toList], [])] }
  links := [("./b.rs".toList, "./a.rs".toList)]

theorem selectedFiles_linkedFolder (dryRun : Bool) :
    selectedFiles linkedFolder ⟨['.'], [".rs".toList], dryRun, false, false⟩ =
      some ["./a.rs".toList, "./b.rs".toList] := by
  have hwalk : (Disk.below linkedFolder ['.']).walk = [["a.rs".toList], ["b.rs".toList]] := by
    have hbelow : Disk.below linkedFolder ['.'] =
        .file "a.rs".toList (.file "b.rs".toList .nil) := by decide
    rw [hbelow]
    cbv
  have hfile : Disk.isFile linkedFolder ['.'] = false := by decide
  have hfolder : Disk.isFolder linkedFolder ['.'] = true := by decide
  exact (selectedFiles_of_isFolder hfile hfolder hwalk).trans (by cases dryRun <;> decide)

/-- A folder with a link that leads nowhere. -/
def danglingLink : LinkedTree where
  tree := { files := [(["a.rs".toList], [])] }
  links := [("./a.rs".toList, "nowhere".toList)]

theorem selectedFiles_danglingLink :
    selectedFiles danglingLink ⟨['.'], [".rs".toList], false, false, false⟩ =
      some ["./a.rs".toList] := by
  have hwalk : (Disk.below danglingLink ['.']).walk = [["a.rs".toList]] := by
    have hbelow : Disk.below danglingLink ['.'] = .file "a.rs".toList .nil := by decide
    rw [hbelow]
    cbv
  have hfile : Disk.isFile danglingLink ['.'] = false := by decide
  exact (selectedFiles_of_isFolder hfile (by decide) hwalk).trans (by decide)

/-- **A dry run can be wrong.** It names a file that the run stops at, because there is no room for
the backup, and counts a file twice that the run changes once. And where a file cannot be read,
neither of them ends with an exit status. -/
theorem command_dryRun_is_wrong :
    (let o : Options := ⟨longName, [".rs".toList], false, true, false⟩
     readArguments ["--backup".toList, longName] = .ok o ∧
       readArguments ["--backup".toList, "--dry-run".toList, longName] =
         .ok { o with dryRun := true } ∧
       HasRoom longNamed o ∧
       (run longNamed { o with dryRun := true }).report =
         .ok ⟨0, "[dry-run] converted: ".toList ++ longName ++
           "\n\n1/1 files would be modified\n".toList, []⟩ ∧
       (run longNamed o).report = .error ⟨.missing, backupPath longName, true⟩) ∧
    (let o : Options := ⟨['.'], [".rs".toList], false, false, false⟩
     readArguments [['.']] = .ok o ∧
       readArguments ["--dry-run".toList, ['.']] = .ok { o with dryRun := true } ∧
       HasRoom linkedFolder o ∧
       (run linkedFolder { o with dryRun := true }).report =
         .ok ⟨0, ("[dry-run] converted: ./a.rs\n[dry-run] converted: ./b.rs\n\n" ++
           "2/2 files would be modified\n").toList, []⟩ ∧
       (run linkedFolder o).report =
         .ok ⟨0, "converted: ./a.rs\n\n1/2 files modified\n".toList, []⟩ ∧
       HasRoom danglingLink o ∧
       (run danglingLink o).report = .error (.file ⟨.missing, "nowhere".toList, false⟩)) := by
  have hlong : selection longNamed ⟨longName, [".rs".toList], false, true, false⟩ = [longName] := by
    decide +kernel
  refine ⟨⟨?_, ?_, ?_, ?_, ?_⟩, rfl, rfl, ?_, ?_, ?_, ?_, ?_⟩
  · decide +kernel
  · decide +kernel
  · rw [HasRoom, hlong]
    decide +kernel
  · decide +kernel
  · decide +kernel
  · rw [HasRoom, selection, selectedFiles_linkedFolder]
    decide +kernel
  · rw [run_of_selectedFiles (selectedFiles_linkedFolder true) (by decide +kernel)]
    decide +kernel
  · rw [run_of_selectedFiles (selectedFiles_linkedFolder false) (by decide +kernel)]
    decide +kernel
  · rw [HasRoom, selection, selectedFiles_danglingLink]
    decide +kernel
  · rw [run, selectedFiles_danglingLink]
    decide +kernel

end DoxygenMarkdown.Batch

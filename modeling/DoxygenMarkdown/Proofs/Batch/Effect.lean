import DoxygenMarkdown.Batch.File
import DoxygenMarkdown.Proofs.Bindings.Converted
import DoxygenMarkdown.Proofs.Bindings.Locality
import DoxygenMarkdown.Proofs.FileTree.Linked

/-!
# What a call leaves behind

Converting a file tells in its result what it does to the files, and does no more than that:
**`convertPath_effect`**. The promise has two sides.

* `HasEffect` is about the files. A call that comes to its end tells whether the text of the file is
  changed by the conversion. Only if it is, and the call is no trial, something is written: the
  file, and its backup if there is to be one.
* `ReportsRuns` is about the runs of doc attributes. A run that cannot be read is recorded, in the
  list of errors or in the log, and otherwise does not matter: every segment becomes what it would
  become alone.

A call fails in three ways. If the file cannot be read, nothing is done. If its backup cannot be
made, the file is left as it is. If the file cannot be written, its backup was made before and stays
(`FailsLate`). So there are calls that fail and leave something behind
(`convertPath_fails_late`).
-/

namespace DoxygenMarkdown.Batch

open Bindings (DocRun Segment)
open Disk (Holds ChangesOnly)
open Disk.View (place? fileAt?)

/-- The text that a file with some content has after its conversion. -/
def convertedText (trimLines : Bool) (bytes : Bytes) : Text :=
  (Bindings.convert trimLines (textOf bytes)).text

variable {σ ι ε : Type} [Disk σ ε] [Disk.View σ ι]

/-- The places that converting a file may write: that of the file, and that of its backup. -/
def Footprint (mode : Mode) (disk : σ) (path : Text) (l : ι) : Prop :=
  place? disk path = some l ∨ mode.backup = true ∧ place? disk (backupPath path) = some l

/-- The backup of a file is another file, and holds what the file held. -/
def HasBackup (disk : σ) (path : Text) (bytes : Bytes) : Prop :=
  Holds disk (backupPath path) bytes ∧ place? disk (backupPath path) ≠ place? disk path

/-- How a call fails for a file that can be read. -/
inductive FailsLate (mode : Mode) (disk : σ) (path : Text) (bytes : Bytes) :
    σ → ε → Prop where
  /-- If the backup cannot be made, the file holds what it held. -/
  | backup {disk' : σ} {e : ε} (hbackup : mode.backup = true)
    (hcopy : (Disk.copy disk path (backupPath path)).2 = .error e)
    (hfile : Holds disk' path bytes) : FailsLate mode disk path bytes disk' e
  /-- If the file cannot be written, the backup was made before. -/
  | write {disk' : σ} {e : ε}
    (hwrite : (Disk.write (makeBackup disk path mode.backup).1 path
      (Utf8.encode (convertedText mode.trimLines bytes))).2 = .error e)
    (hbackup : mode.backup = true → HasBackup disk' path bytes) :
    FailsLate mode disk path bytes disk' e

/-- What a call says is what it does to the files. -/
structure HasEffect (mode : Mode) (disk : σ) (path : Text) (c : FileConversion σ ε) : Prop where
  /-- A file that cannot be read is left alone. -/
  unread : ∀ e, Disk.read disk path = .error e → c.changed = .error e ∧ c.tree = disk
  /-- If there is nothing to be written, a call comes to its end. -/
  ends : ∀ bytes, Disk.read disk path = .ok bytes →
    convertedText mode.trimLines bytes = textOf bytes ∨ mode.dryRun = true →
    ∃ changed, c.changed = .ok changed
  /-- Then it tells whether the text of the file is a different one. -/
  told : ∀ bytes changed, Disk.read disk path = .ok bytes → c.changed = .ok changed →
    (changed = true ↔ convertedText mode.trimLines bytes ≠ textOf bytes)
  /-- Nothing is done without a change, or in a trial. -/
  untouched : c.changed = .ok false ∨ mode.dryRun = true → c.tree = disk
  /-- Otherwise the file holds its converted text, and the backup the bytes that the file held. -/
  written : ∀ bytes, Disk.read disk path = .ok bytes → c.changed = .ok true →
    mode.dryRun = false → Holds c.tree path (Utf8.encode (convertedText mode.trimLines bytes)) ∧
      (mode.backup = true → HasBackup c.tree path bytes)
  /-- A file that can be read fails a call only because of what was to be written. -/
  failed : ∀ bytes e, Disk.read disk path = .ok bytes → c.changed = .error e →
    FailsLate mode disk path bytes c.tree e
  /-- Other files are never made or changed, whether the call fails or not. -/
  others : ChangesOnly disk c.tree (Footprint mode disk path)

/-- Each segment of a text is converted by itself, and only events tell of runs that cannot be
read: the caller finds them all in the list of errors, if it takes one, and otherwise in the log. -/
structure ReportsRuns (trimLines : Bool) (t : Text) (events : List Bindings.Event) : Prop where
  lines : (Bindings.convert trimLines t).lines =
    (Bindings.segments t).flatMap fun s => (s.convert trimLines).lines
  kept : ∀ s ∈ Bindings.segments t, ¬ s.IsConverted → (s.convert trimLines).lines = s.source
  errors : events.filterMap Bindings.Event.error? = (Bindings.runs t).filterMap DocRun.error?
  taken : (Bindings.logOf true events).filter (·.level = .error) = []
  logged : (Bindings.logOf false events).filter (·.level = .error) =
    ((Bindings.runs t).filterMap DocRun.error?).map fun e => Log.entry .error e.message

section Effect

variable {disk : σ} {mode : Mode} {path : Text} {bytes : Bytes}

theorem reportsRuns_convert (trimLines : Bool) (t : Text) :
    ReportsRuns trimLines t (Bindings.convert trimLines t).events where
  lines := by
    rw [Bindings.convert]
    induction Bindings.segments t with
    | nil => rfl
    | cons s ss ih => rw [Bindings.convertSegments_cons, ih, List.flatMap_cons]
  kept _ _ hs := Segment.lines_convert_of_not_isConverted hs
  errors := Bindings.errors_convertSegments (Bindings.segments t)
  taken := Bindings.errors_logOf_true _
  logged := by
    rw [Bindings.errors_logOf_false]
    exact congrArg _ (Bindings.errors_convertSegments (Bindings.segments t))

/-! ## What is done to the files -/

/-- A file that cannot be read is left alone. -/
theorem convertPath_of_error {e : ε} (h : Disk.read disk path = .error e) (mode : Mode) :
    convertPath mode disk path = ⟨disk, [], .error e⟩ := by
  rw [convertPath, h]

/-- A file whose text stays what it is, and one that is only looked at, is not written. -/
theorem convertPath_of_idle (h : Disk.read disk path = .ok bytes)
    (hidle : convertedText mode.trimLines bytes = textOf bytes ∨ mode.dryRun = true) :
    convertPath mode disk path =
      ⟨disk, (Bindings.convert mode.trimLines (textOf bytes)).events,
        .ok (decide (convertedText mode.trimLines bytes ≠ textOf bytes))⟩ := by
  rw [convertPath, h]
  by_cases hsame : convertedText mode.trimLines bytes = textOf bytes
  · rw [convertedText] at hsame ⊢
    simp [hsame]
  · have hdry := hidle.resolve_left hsame
    rw [convertedText] at hsame ⊢
    simp [hsame, hdry]

/-- A file that changes is written back, and what that led to is what the conversion led to. -/
theorem convertPath_of_ne (h : Disk.read disk path = .ok bytes)
    (hne : convertedText mode.trimLines bytes ≠ textOf bytes) (hreal : mode.dryRun = false) :
    convertPath mode disk path =
      ⟨(writeBack disk path mode.backup (convertedText mode.trimLines bytes)).1,
        (Bindings.convert mode.trimLines (textOf bytes)).events,
        (writeBack disk path mode.backup (convertedText mode.trimLines bytes)).2.map
          fun _ => true⟩ := by
  rw [convertPath, h]
  rw [convertedText] at hne ⊢
  simp only [hne, hreal, if_false, Bool.false_eq_true]
  rcases writeBack disk path mode.backup (Bindings.convert mode.trimLines (textOf bytes)).text with
    ⟨disk', e | u⟩ <;> rfl

/-- What came up is said of the text that was read, whatever becomes of it. -/
theorem events_convertPath (h : Disk.read disk path = .ok bytes) :
    (convertPath mode disk path).events =
      (Bindings.convert mode.trimLines (textOf bytes)).events := by
  rw [convertPath, h]
  dsimp only
  split
  · rfl
  split
  · rfl
  · split <;> rfl

/-- A call does what it says where the file cannot be read. -/
theorem hasEffect_of_error {e : ε} (h : Disk.read disk path = .error e) :
    HasEffect mode disk path (convertPath mode disk path) := by
  have hnot {bytes : Bytes} (hread : Disk.read disk path = .ok bytes) : False := by
    rw [h] at hread
    cases hread
  rw [convertPath_of_error h]
  exact {
    unread := fun e' he => ⟨congrArg _ (Except.error.inj (h.symm.trans he)), rfl⟩
    ends := fun _ hread => (hnot hread).elim
    told := fun _ _ hread => (hnot hread).elim
    untouched := fun _ => rfl
    written := fun _ hread => (hnot hread).elim
    failed := fun _ _ hread => (hnot hread).elim
    others := ChangesOnly.refl disk _ }

/-- A call does what it says where there is nothing to be written. -/
theorem hasEffect_of_idle (h : Disk.read disk path = .ok bytes)
    (hidle : convertedText mode.trimLines bytes = textOf bytes ∨ mode.dryRun = true) :
    HasEffect mode disk path (convertPath mode disk path) := by
  rw [convertPath_of_idle h hidle]
  exact {
    unread := fun e he => nomatch h.symm.trans he
    ends := fun _ _ _ => ⟨_, rfl⟩
    told := by
      intro content changed hread hchanged
      obtain rfl := Except.ok.inj (h.symm.trans hread)
      rw [← Except.ok.inj hchanged, decide_eq_true_iff]
    untouched := fun _ => rfl
    written := by
      intro content _ hchanged hreal
      have hne := of_decide_eq_true (Except.ok.inj hchanged)
      rw [hidle.resolve_left hne] at hreal
      cases hreal
    failed := nofun
    others := ChangesOnly.refl disk _ }

variable [LawfulDisk σ]

/-- What making a backup leaves behind. The file itself stays what it is. -/
theorem changesOnly_makeBackup
    (hbackup : mode.backup = true → Disk.isFolder disk (backupPath path) = false) :
    ChangesOnly disk (makeBackup disk path mode.backup).1 (Footprint mode disk path) := by
  rw [makeBackup]
  split
  · next hb =>
    exact (LawfulDisk.copy_frame disk path (hbackup hb)).mono fun l hl => .inr ⟨hb, hl⟩
  · exact ChangesOnly.refl disk _

/-- Making a backup leaves the file as it was. -/
theorem holds_makeBackup (hread : Disk.read disk path = .ok bytes)
    (hbackup : mode.backup = true → Disk.isFolder disk (backupPath path) = false) :
    Holds (makeBackup disk path mode.backup).1 path bytes := by
  obtain ⟨l, hl, hfile⟩ := LawfulDisk.read_ok disk hread
  refine ⟨l, ((changesOnly_makeBackup hbackup).place?_eq path).trans hl, ?_⟩
  rw [makeBackup]
  split
  · next hb => exact (LawfulDisk.copy_source disk (hbackup hb) hl).trans hfile
  · exact hfile

/-- A backup that was made has the bytes of the file. -/
theorem hasBackup_makeBackup (hread : Disk.read disk path = .ok bytes)
    (hbackup : mode.backup = true → Disk.isFolder disk (backupPath path) = false)
    (hmade : (makeBackup disk path mode.backup).2 = .ok ()) (hb : mode.backup = true) :
    HasBackup (makeBackup disk path mode.backup).1 path bytes := by
  have hchanges := changesOnly_makeBackup hbackup
  rw [HasBackup, hchanges.place?_eq, hchanges.place?_eq]
  rw [makeBackup, if_pos hb] at hmade ⊢
  exact ⟨LawfulDisk.copy_ok disk (hbackup hb) hread hmade,
    LawfulDisk.copy_apart disk (by decide) (by decide) hread hmade⟩

/-- A backup that was made is not touched when the file is written. -/
theorem HasBackup.write (h : HasBackup disk path bytes) (new : Bytes) :
    HasBackup (Disk.write disk path new).1 path bytes := by
  have hchanges := LawfulDisk.write_frame disk path new
  rw [HasBackup, hchanges.place?_eq, hchanges.place?_eq]
  refine ⟨hchanges.holds h.1 fun l hl hl' => h.2 ?_, h.2⟩
  rw [hl, hl']

/-- What writing back leaves behind, and what it says. -/
theorem writeBack_cases (hread : Disk.read disk path = .ok bytes)
    (hbackup : mode.backup = true → Disk.isFolder disk (backupPath path) = false) :
    let r := writeBack disk path mode.backup (convertedText mode.trimLines bytes)
    ChangesOnly disk r.1 (Footprint mode disk path) ∧
      (r.2 = .ok () → Holds r.1 path (Utf8.encode (convertedText mode.trimLines bytes)) ∧
        (mode.backup = true → HasBackup r.1 path bytes)) ∧
      ∀ e, r.2 = .error e → FailsLate mode disk path bytes r.1 e := by
  intro r
  have hchanges := changesOnly_makeBackup hbackup
  have hfile := holds_makeBackup hread hbackup
  have hmadeBackup := hasBackup_makeBackup hread hbackup
  rcases hmade : makeBackup disk path mode.backup with ⟨made, e | u⟩
  · -- only a copy that was asked for can fail
    have hb : mode.backup = true := by
      by_contra hb
      rw [makeBackup, if_neg hb] at hmade
      cases congrArg Prod.snd hmade
    have hr : r = (made, .error e) := by simp only [r, writeBack, hmade]
    rw [hmade] at hchanges hfile
    rw [makeBackup, if_pos hb] at hmade
    rw [hr]
    refine ⟨hchanges, nofun, fun e' he => .backup hb ?_ hfile⟩
    rw [hmade]
    exact he
  · let new := Utf8.encode (convertedText mode.trimLines bytes)
    have hr : r = Disk.write made path new := by simp only [r, writeBack, hmade, new]
    rw [hmade] at hchanges hmadeBackup
    have hbak (hb : mode.backup = true) : HasBackup (Disk.write made path new).1 path bytes :=
      (hmadeBackup rfl hb).write new
    rw [hr]
    refine ⟨hchanges.trans ((LawfulDisk.write_frame made path new).mono fun l hl => .inl ?_),
      fun hwritten => ⟨LawfulDisk.write_ok made hwritten, hbak⟩, fun e he => .write ?_ hbak⟩
    · rw [← hchanges.place?_eq, hl]
    · rw [hmade]
      exact he

/-- A call does what it says where the file is written back, whether that succeeds or not. -/
theorem hasEffect_of_ne (h : Disk.read disk path = .ok bytes)
    (hne : convertedText mode.trimLines bytes ≠ textOf bytes) (hreal : mode.dryRun = false)
    (hbackup : mode.backup = true → Disk.isFolder disk (backupPath path) = false) :
    HasEffect mode disk path (convertPath mode disk path) := by
  obtain ⟨hchanges, hwritten, hfailed⟩ := writeBack_cases h hbackup
  have hdry : mode.dryRun ≠ true := Bool.eq_false_iff.1 hreal
  have hends {content : Bytes} (hread : Disk.read disk path = .ok content)
      (hidle : convertedText mode.trimLines content = textOf content ∨ mode.dryRun = true) :
      False := by
    obtain rfl := Except.ok.inj (h.symm.trans hread)
    exact hidle.elim hne hdry
  rw [convertPath_of_ne h hne hreal]
  rcases hresult : writeBack disk path mode.backup (convertedText mode.trimLines bytes) with
    ⟨disk', e | u⟩ <;> rw [hresult] at hchanges hwritten hfailed
  · exact {
      unread := fun e he => nomatch h.symm.trans he
      ends := fun _ hread hidle => (hends hread hidle).elim
      told := nofun
      untouched := fun hidle => hidle.elim nofun (absurd · hdry)
      written := nofun
      failed := by
        intro content e' hread he
        obtain rfl := Except.ok.inj (h.symm.trans hread)
        exact hfailed e' (congrArg _ (Except.error.inj he))
      others := hchanges }
  · exact {
      unread := fun e he => nomatch h.symm.trans he
      ends := fun _ hread hidle => (hends hread hidle).elim
      told := by
        intro content changed hread hchanged
        obtain rfl := Except.ok.inj (h.symm.trans hread)
        exact iff_of_true (Except.ok.inj hchanged).symm hne
      untouched := fun hidle => hidle.elim nofun (absurd · hdry)
      written := by
        intro content hread _ _
        obtain rfl := Except.ok.inj (h.symm.trans hread)
        exact hwritten rfl
      failed := nofun
      others := hchanges }

/-- What a call says is what it does. -/
theorem hasEffect_convertPath
    (hbackup : mode.backup = true → Disk.isFolder disk (backupPath path) = false) :
    HasEffect mode disk path (convertPath mode disk path) := by
  cases hread : Disk.read disk path with
  | error e => exact hasEffect_of_error hread
  | ok bytes =>
    by_cases hidle : convertedText mode.trimLines bytes = textOf bytes ∨ mode.dryRun = true
    · exact hasEffect_of_idle hread hidle
    · obtain ⟨hne, hdry⟩ := not_or.1 hidle
      exact hasEffect_of_ne hread hne (Bool.eq_false_iff.2 hdry) hbackup

/-- **A call does to the files what it says.** If a backup is not kept from being made by a folder,
a call that comes to its end has changed the file, and made its backup, exactly if it says that the
file changes and is no trial. Nothing else is ever made or changed, and a call that fails does so
because of what the disk could not do, before that or behind the backup. For a file that can be
read, each run of it is treated by itself. -/
theorem convertPath_effect (mode : Mode) (disk : σ) (path : Text)
    (hbackup : mode.backup = true → Disk.isFolder disk (backupPath path) = false) :
    HasEffect mode disk path (convertPath mode disk path) ∧
      (∀ e, Disk.read disk path = .error e → (convertPath mode disk path).events = []) ∧
      ∀ bytes, Disk.read disk path = .ok bytes →
        ReportsRuns mode.trimLines (textOf bytes) (convertPath mode disk path).events := by
  refine ⟨hasEffect_convertPath hbackup, fun e h => ?_, fun bytes h => ?_⟩
  · rw [convertPath_of_error h]
  · rw [events_convertPath h]
    exact reportsRuns_convert mode.trimLines (textOf bytes)

end Effect

/-- A byte that is no UTF-8, a run that cannot be read and one that can. -/
def partlyReadable : Bytes :=
  0xFF :: Utf8.encode "\n#[doc = \"@param[x\"]\nfn f\n#[doc = \"@brief y\"]".toList

/-- The run that can be read is written, and the backup keeps the byte. -/
theorem convertPath_effect_partlyReadable :
    let tree : FileTree := { files := [(["f".toList], partlyReadable), (["g".toList], [])] }
    let c := convertPath { backup := true } tree "f".toList
    tree.isFolder "f.bak".toList = false ∧
      c.changed = .ok true ∧
      Holds c.tree "f".toList (Utf8.encode
        "\ufffd\n#[doc = \"@param[x\"]\nfn f\n#[doc = \"y\"]".toList) ∧
      Holds c.tree "f.bak".toList partlyReadable ∧
      c.tree.fileAt? ["g".toList] = some [] ∧
      c.events.filterMap Bindings.Event.error? = [⟨"x".toList, some 2⟩] := by
  intro tree c
  have hfolder : tree.isFolder "f.bak".toList = false := by decide
  have hread : Disk.read tree "f".toList = .ok partlyReadable := rfl
  have htext : convertedText true partlyReadable =
      "\ufffd\n#[doc = \"@param[x\"]\nfn f\n#[doc = \"y\"]".toList := by decide +kernel
  have hne : convertedText true partlyReadable ≠ textOf partlyReadable := by decide +kernel
  obtain ⟨heffect, -, hreports⟩ :=
    convertPath_effect { backup := true } tree "f".toList fun _ => hfolder
  have hchanged : c.changed = .ok true := by
    cases hresult : c.changed with
    | error e => cases heffect.failed _ e hread hresult with
      | backup _ hcopy => cases hcopy
      | write hwrite => cases hwrite
    | ok changed => rw [(heffect.told _ _ hread hresult).2 hne]
  obtain ⟨hwritten, hbackup⟩ := heffect.written _ hread hchanged rfl
  rw [htext] at hwritten
  refine ⟨hfolder, hchanged, hwritten, (hbackup rfl).1, ?_, ?_⟩
  · refine (heffect.others.fileAt?_eq ["g".toList] ?_).trans rfl
    rintro (h | ⟨-, h⟩) <;> cases h
  · exact (hreports partlyReadable hread).errors.trans (by decide +kernel)

/-- A name that is just short enough for a file, and too long with an ending. -/
def longName : Text := List.replicate 249 'a' ++ ".rs".toList

/-- A file with a comment that is converted. -/
def briefFile : Bytes := Utf8.encode "#[doc = \"@brief x\"]".toList

/-- A file whose name leaves no room for an ending. -/
def longNamed : FileTree where
  files := [([longName], briefFile)]

/-- A file that can be read and not written. -/
def guardedFile : LinkedTree where
  tree := { files := [(["f".toList], briefFile)] }
  guarded := [["f".toList]]

/-- **A call can fail behind the reading.** A file whose name is too long for a backup can be read,
and its text is changed by the conversion, but the call does not say so. If a file cannot be
written, the call fails and has made a backup. -/
theorem convertPath_fails_late :
    convertedText true briefFile ≠ textOf briefFile ∧
      (longNamed.read longName = .ok briefFile ∧
        longNamed.isFolder (backupPath longName) = false ∧
        (convertPath { backup := true } longNamed longName).changed =
          .error ⟨.missing, backupPath longName, true⟩) ∧
      Disk.read guardedFile "f".toList = .ok briefFile ∧
      Disk.isFolder guardedFile (backupPath "f".toList) = false ∧
      fileAt? guardedFile ["f.bak".toList] = none ∧
      (let c := convertPath { backup := true } guardedFile "f".toList
       c.changed = .error (.permission "f".toList) ∧
         fileAt? c.tree ["f.bak".toList] = some briefFile) := by
  have hne : convertedText true briefFile ≠ textOf briefFile := by decide +kernel
  have hread : Disk.read longNamed longName = .ok briefFile := by decide +kernel
  have hlong : convertPath { backup := true } longNamed longName = _ :=
    convertPath_of_ne hread hne rfl
  have hguarded : convertPath { backup := true } guardedFile "f".toList = _ :=
    convertPath_of_ne rfl hne rfl
  refine ⟨hne, ⟨hread, by decide +kernel, ?_⟩, rfl, rfl, rfl, ?_⟩
  · rw [hlong]
    decide +kernel
  · rw [hguarded]
    exact ⟨rfl, rfl⟩

/-- Such a call keeps to what it says all the same: the disk is lawful. -/
example : HasEffect { backup := true } guardedFile "f".toList
    (convertPath { backup := true } guardedFile "f".toList) :=
  hasEffect_convertPath fun _ => rfl

end DoxygenMarkdown.Batch

import DoxygenMarkdown.Batch
import DoxygenMarkdown.Proofs.Batch.Effect
import Mathlib.Data.List.Pairwise

/-!
# Converting files, one after the other

What converting a file says can be told from the disk before (`outlook`), and a trial run says just
that and leaves the disk as it is (`convertPaths_dryRun`).

A run changes the disk as it goes on. If what it writes for one file keeps off all others (`Apart`),
a run that comes to its end says the same (`convertPaths_real`). It leaves behind what it should
(`IsRun`): this holds of one file by what a call leaves behind (`isRun_convertPath`), and of more of
them because they are written independently (`IsRun.append`).
-/

namespace DoxygenMarkdown.Batch

open Disk (Holds ChangesOnly)
open Disk.View (place? fileAt?)

section Outlook

variable {σ ε : Type} [Disk σ ε]

/-- A file whose text is changed by the conversion. -/
def IsChanged (trimLines : Bool) (disk : σ) (path : Text) : Prop :=
  ∃ bytes, Disk.read disk path = .ok bytes ∧ convertedText trimLines bytes ≠ textOf bytes

/-- The comments of a file that cannot be read, with what is wrong with them. -/
def mistakes (disk : σ) (path : Text) : List DirectionError :=
  match Disk.read disk path with
  | .ok bytes => (Bindings.runs (textOf bytes)).filterMap Bindings.DocRun.error?
  | .error _ => []

/-- What converting a file says, as far as can be told from the disk before. -/
def outlook (trimLines : Bool) (disk : σ) (path : Text) : Handled :=
  match Disk.read disk path with
  | .ok bytes =>
    ⟨path, (Bindings.convert trimLines (textOf bytes)).events,
      decide (convertedText trimLines bytes ≠ textOf bytes)⟩
  | .error _ => ⟨path, [], false⟩

variable {trimLines : Bool} {disk disk' : σ} {path : Text} {bytes : Bytes}

theorem isChanged_iff (h : Disk.read disk path = .ok bytes) :
    IsChanged trimLines disk path ↔ convertedText trimLines bytes ≠ textOf bytes := by
  refine ⟨?_, fun hne => ⟨bytes, h, hne⟩⟩
  rintro ⟨bytes', h', hne⟩
  rwa [Except.ok.inj (h.symm.trans h')]

/-- A file that cannot be read does not change. -/
theorem not_isChanged {e : ε} (h : Disk.read disk path = .error e) :
    ¬ IsChanged trimLines disk path := by
  rintro ⟨bytes, h', -⟩
  rw [h] at h'
  cases h'

instance : DecidablePred (IsChanged trimLines disk) := fun path =>
  match h : Disk.read disk path with
  | .ok _ => decidable_of_iff _ (isChanged_iff h).symm
  | .error _ => isFalse (not_isChanged h)

theorem outlook_of_read (h : Disk.read disk path = .ok bytes) :
    outlook trimLines disk path =
      ⟨path, (Bindings.convert trimLines (textOf bytes)).events,
        decide (convertedText trimLines bytes ≠ textOf bytes)⟩ := by
  rw [outlook, h]

theorem path_outlook (trimLines : Bool) (disk : σ) (path : Text) :
    (outlook trimLines disk path).path = path := by
  rw [outlook]
  split <;> rfl

/-- The outlook tells whether the text of the file is changed. -/
theorem changed_outlook (trimLines : Bool) (disk : σ) (path : Text) :
    (outlook trimLines disk path).changed = decide (IsChanged trimLines disk path) := by
  cases h : Disk.read disk path with
  | ok bytes => rw [outlook_of_read h, decide_eq_decide, isChanged_iff h]
  | error e =>
    rw [decide_eq_false (not_isChanged h), outlook, h]

/-- The outlook has all comments that cannot be read. -/
theorem errors_outlook (trimLines : Bool) (disk : σ) (path : Text) :
    (outlook trimLines disk path).events.filterMap Bindings.Event.error? = mistakes disk path := by
  rw [outlook, mistakes]
  cases Disk.read disk path with
  | ok bytes => exact Bindings.errors_convertSegments (Bindings.segments (textOf bytes))
  | error e => rfl

/-- What is to come of a file depends on its bytes alone. -/
theorem outlook_congr (h : Disk.read disk' path = Disk.read disk path) :
    outlook trimLines disk' path = outlook trimLines disk path := by
  rw [outlook, outlook, h]

theorem isChanged_congr (h : Disk.read disk' path = Disk.read disk path) :
    IsChanged trimLines disk' path ↔ IsChanged trimLines disk path := by
  rw [IsChanged, IsChanged, h]

/-! ## A trial run -/

variable {mode : Mode} {paths : List Text}

/-- A trial run tells what is to come of a file, and leaves the disk as it was. -/
theorem convertPath_dryRun (hdry : mode.dryRun = true) (h : Disk.read disk path = .ok bytes) :
    convertPath mode disk path = ⟨disk, (outlook mode.trimLines disk path).events,
      .ok (outlook mode.trimLines disk path).changed⟩ := by
  rw [outlook_of_read h, convertPath_of_idle h (.inr hdry)]

/-- **A trial run leaves the disk as it is**, and says what can be told. -/
theorem convertPaths_dryRun (hdry : mode.dryRun = true) (disk : σ) (paths : List Text) :
    (convertPaths mode disk paths).tree = disk ∧
      ((∀ p ∈ paths, ∃ bytes, Disk.read disk p = .ok bytes) →
        (convertPaths mode disk paths).stopped = none ∧
          (convertPaths mode disk paths).handled = paths.map (outlook mode.trimLines disk)) := by
  induction paths with
  | nil => exact ⟨rfl, fun _ => ⟨rfl, rfl⟩⟩
  | cons p ps ih =>
    cases hread : Disk.read disk p with
    | error e =>
      rw [convertPaths, convertPath_of_error hread]
      refine ⟨rfl, fun h => ?_⟩
      obtain ⟨bytes, h⟩ := h p List.mem_cons_self
      rw [hread] at h
      cases h
    | ok bytes =>
      rw [convertPaths, convertPath_dryRun hdry hread]
      refine ⟨ih.1, fun h => ?_⟩
      obtain ⟨hstopped, hhandled⟩ := ih.2 fun q hq => h q (List.mem_cons_of_mem _ hq)
      refine ⟨hstopped, ?_⟩
      rw [List.map_cons, ← hhandled]
      simp only [outlook_of_read hread]

end Outlook

/-! ## What a run leaves behind -/

variable {σ ι ε : Type} [Disk σ ε] [Disk.View σ ι]

/-- Converting a file writes to a place, if the call comes to its end. -/
def Writes (mode : Mode) (disk : σ) (path : Text) (l : ι) : Prop :=
  IsChanged mode.trimLines disk path ∧ Footprint mode disk path l

/-- What is written for a file is not another file, and is not written for that one either. -/
def KeepsOff (mode : Mode) (disk : σ) (p q : Text) : Prop :=
  ∀ l, Writes mode disk p l → place? disk q ≠ some l ∧ ¬ Writes mode disk q l

/-- Two files of which none is in the way of the other. -/
def Apart (mode : Mode) (disk : σ) (p q : Text) : Prop :=
  KeepsOff mode disk p q ∧ KeepsOff mode disk q p

instance (mode : Mode) (disk : σ) : Std.Symm (Apart mode disk) := ⟨fun _ _ h => h.symm⟩

/-- What a run leaves behind that changes some files. -/
structure IsRun (mode : Mode) (disk disk' : σ) (paths : List Text) : Prop where
  /-- Each of them holds its converted text, and its backup what it held. -/
  written : ∀ p ∈ paths, ∃ bytes, Disk.read disk p = .ok bytes ∧
    Holds disk' p (Utf8.encode (convertedText mode.trimLines bytes)) ∧
      (mode.backup = true → Holds disk' (backupPath p) bytes)
  /-- No others are made or changed. -/
  others : ChangesOnly disk disk' fun l => ∃ p ∈ paths, Footprint mode disk p l

variable {mode : Mode} {disk disk' disk'' : σ} {path : Text} {paths : List Text}

theorem IsRun.refl (mode : Mode) (disk : σ) : IsRun mode disk disk [] :=
  ⟨fun _ h => absurd h List.not_mem_nil, ChangesOnly.refl disk _⟩

/-- Which places a file takes up is not changed by writing elsewhere. -/
theorem footprint_congr {places : ι → Prop} (h : ChangesOnly disk disk' places) {l : ι} :
    Footprint mode disk' path l ↔ Footprint mode disk path l := by
  rw [Footprint, Footprint, h.place?_eq, h.place?_eq]

/-- Files whose footprints are apart are written independently. -/
theorem IsRun.append {ps qs : List Text} (h : IsRun mode disk disk' ps)
    (h' : IsRun mode disk' disk'' qs) (hread : ∀ q ∈ qs, Disk.read disk' q = Disk.read disk q)
    (hapart : ∀ p ∈ ps, ∀ q ∈ qs, ∀ l, Footprint mode disk p l → ¬ Footprint mode disk q l) :
    IsRun mode disk disk'' (ps ++ qs) where
  written p hp := by
    rcases List.mem_append.1 hp with hp | hp
    · obtain ⟨bytes, hbytes, hnew, hbackup⟩ := h.written p hp
      -- the files that are written later are elsewhere
      have hlater {l : ι} (hl : Footprint mode disk' p l) :
          ¬ ∃ q ∈ qs, Footprint mode disk' q l := by
        rintro ⟨q, hq, hl'⟩
        rw [footprint_congr h.others] at hl hl'
        exact hapart p hp q hq l hl hl'
      exact ⟨bytes, hbytes, h'.others.holds hnew fun l hl => hlater (.inl hl),
        fun hb => h'.others.holds (hbackup hb) fun l hl => hlater (.inr ⟨hb, hl⟩)⟩
    · rw [← hread p hp]
      exact h'.written p hp
  others := by
    refine (h.others.mono ?_).trans (h'.others.mono ?_)
    · rintro l ⟨p, hp, hl⟩
      exact ⟨p, List.mem_append_left _ hp, hl⟩
    · rintro l ⟨q, hq, hl⟩
      exact ⟨q, List.mem_append_right _ hq, (footprint_congr h.others).1 hl⟩

variable [LawfulDisk σ]

/-- One file that a call has come to its end with. -/
theorem isRun_convertPath (hreal : mode.dryRun = false)
    (hroom : mode.backup = true → Disk.isFolder disk (backupPath path) = false) {changed : Bool}
    (h : (convertPath mode disk path).changed = .ok changed) :
    (∃ bytes, Disk.read disk path = .ok bytes) ∧
      (⟨path, (convertPath mode disk path).events, changed⟩ : Handled) =
        outlook mode.trimLines disk path ∧
      IsRun mode disk (convertPath mode disk path).tree
        ([path].filter (IsChanged mode.trimLines disk)) := by
  have heffect : HasEffect mode disk path (convertPath mode disk path) :=
    hasEffect_convertPath hroom
  cases hread : Disk.read disk path with
  | error e =>
    rw [(heffect.unread e hread).1] at h
    cases h
  | ok bytes =>
    have htold := heffect.told bytes changed hread h
    refine ⟨⟨bytes, rfl⟩, ?_, ?_⟩
    · rw [outlook_of_read hread, events_convertPath hread, ← Bool.decide_coe changed,
        decide_eq_decide.2 htold]
    · by_cases hchanged : IsChanged mode.trimLines disk path
      · have hne := (isChanged_iff hread).1 hchanged
        rw [htold.2 hne] at h
        rw [List.filter_singleton, decide_eq_true hchanged, cond_true]
        obtain ⟨hnew, hbackup⟩ := heffect.written bytes hread h hreal
        refine ⟨?_, heffect.others.mono fun l hl => ⟨path, List.mem_cons_self, hl⟩⟩
        intro p hp
        obtain rfl := List.mem_singleton.1 hp
        exact ⟨bytes, hread, hnew, fun hb => (hbackup hb).1⟩
      · have hfalse : changed = false := by
          rw [Bool.eq_false_iff]
          exact fun hc => hchanged ((isChanged_iff hread).2 (htold.1 hc))
        rw [hfalse] at h
        rw [List.filter_singleton, decide_eq_false hchanged, cond_false, heffect.untouched (.inl h)]
        exact IsRun.refl mode disk

section Apart

variable (h : IsRun mode disk disk' (paths.filter (IsChanged mode.trimLines disk)))

include h

/-- A file that a run keeps off is read afterwards as it was before. -/
theorem IsRun.read_eq {q : Text} (hoff : ∀ p ∈ paths, KeepsOff mode disk p q) {bytes : Bytes}
    (hread : Disk.read disk' q = .ok bytes) : Disk.read disk' q = Disk.read disk q := by
  obtain ⟨l, hl, -⟩ := LawfulDisk.read_ok disk' hread
  rw [h.others.place?_eq] at hl
  refine h.others.read_eq q l hl ?_
  rintro ⟨p, hp, hfoot⟩
  obtain ⟨hp, hchanged⟩ := List.mem_filter.1 hp
  exact (hoff p hp l ⟨of_decide_eq_true hchanged, hfoot⟩).1 hl

/-- So nothing else is written for it than before. -/
theorem IsRun.writes_of_writes {q : Text} (hoff : ∀ p ∈ paths, KeepsOff mode disk p q) {l : ι}
    (hw : Writes mode disk' q l) : Writes mode disk q l := by
  obtain ⟨⟨bytes, hread, hne⟩, hfoot⟩ := hw
  exact ⟨⟨bytes, (h.read_eq hoff hread).symm.trans hread, hne⟩, (footprint_congr h.others).1 hfoot⟩

/-- Files that a run keeps off are as far apart afterwards as before. -/
theorem IsRun.apart {q q' : Text} (hoff : ∀ p ∈ paths, KeepsOff mode disk p q)
    (hoff' : ∀ p ∈ paths, KeepsOff mode disk p q') (hapart : Apart mode disk q q') :
    Apart mode disk' q q' := by
  have hkeeps {r r' : Text} (hr : ∀ p ∈ paths, KeepsOff mode disk p r)
      (hr' : ∀ p ∈ paths, KeepsOff mode disk p r') (hoff : KeepsOff mode disk r r') :
      KeepsOff mode disk' r r' := by
    intro l hw
    obtain ⟨hplace, hnot⟩ := hoff l (h.writes_of_writes hr hw)
    rw [h.others.place?_eq]
    exact ⟨hplace, fun hw' => hnot (h.writes_of_writes hr' hw')⟩
  exact ⟨hkeeps hoff hoff' hapart.1, hkeeps hoff' hoff hapart.2⟩

end Apart

/-- **A run says what can be told before**, and leaves behind what it should, if it comes to its
end. -/
theorem convertPaths_real (hreal : mode.dryRun = false)
    (hroom : mode.backup = true → ∀ p ∈ paths, Disk.isFolder disk (backupPath p) = false)
    (hapart : paths.Pairwise (Apart mode disk))
    (hstopped : (convertPaths mode disk paths).stopped = none) :
    (∀ p ∈ paths, ∃ bytes, Disk.read disk p = .ok bytes) ∧
      (convertPaths mode disk paths).handled = paths.map (outlook mode.trimLines disk) ∧
      IsRun mode disk (convertPaths mode disk paths).tree
        (paths.filter (IsChanged mode.trimLines disk)) := by
  induction paths generalizing disk with
  | nil => exact ⟨fun _ h => absurd h List.not_mem_nil, rfl, IsRun.refl mode disk⟩
  | cons p ps ih =>
    rw [List.pairwise_cons] at hapart
    rw [convertPaths] at hstopped ⊢
    cases hchanged : (convertPath mode disk p).changed with
    | error e =>
      rw [hchanged] at hstopped
      cases hstopped
    | ok changed =>
      rw [hchanged] at hstopped
      obtain ⟨hfound, houtlook, hrun⟩ := isRun_convertPath hreal
        (fun hb => hroom hb p List.mem_cons_self) hchanged
      let next := (convertPath mode disk p).tree
      -- the first file is not in the way of the others
      have hoff : ∀ q ∈ ps, ∀ p' ∈ [p], KeepsOff mode disk p' q := by
        intro q hq p' hp'
        obtain rfl := List.mem_singleton.1 hp'
        exact (hapart.1 q hq).1
      have hroomNext (hb : mode.backup = true) :
          ∀ q ∈ ps, Disk.isFolder next (backupPath q) = false := fun q hq =>
        (hrun.others.isFolder_eq _).trans (hroom hb q (List.mem_cons_of_mem _ hq))
      have hapartNext : ps.Pairwise (Apart mode next) :=
        hapart.2.imp_of_mem fun hq hq' => hrun.apart (hoff _ hq) (hoff _ hq')
      obtain ⟨hfounds, hhandled, hrest⟩ := ih hroomNext hapartNext hstopped
      have hread : ∀ q ∈ ps, Disk.read next q = Disk.read disk q := by
        intro q hq
        obtain ⟨bytes, hbytes⟩ := hfounds q hq
        exact hrun.read_eq (hoff q hq) hbytes
      have hfilter : ps.filter (IsChanged mode.trimLines next) =
          ps.filter (IsChanged mode.trimLines disk) :=
        List.filter_congr fun q hq => decide_eq_decide.2 (isChanged_congr (hread q hq))
      refine ⟨List.forall_mem_cons.2 ⟨hfound, fun q hq => ?_⟩, ?_, ?_⟩
      · rw [← hread q hq]
        exact hfounds q hq
      · rw [List.map_cons, ← houtlook,
          ← List.map_congr_left fun q hq => outlook_congr (hread q hq), ← hhandled]
      · rw [hfilter] at hrest
        rw [← List.singleton_append, List.filter_append]
        refine hrun.append hrest (fun q hq => hread q (List.mem_filter.1 hq).1) ?_
        intro p' hp' q hq l hfoot hfoot'
        obtain ⟨hp', hchanged⟩ := List.mem_filter.1 hp'
        obtain ⟨hq, hchanged'⟩ := List.mem_filter.1 hq
        exact (hoff q hq p' hp' l ⟨of_decide_eq_true hchanged, hfoot⟩).2
          ⟨of_decide_eq_true hchanged', hfoot'⟩

end DoxygenMarkdown.Batch

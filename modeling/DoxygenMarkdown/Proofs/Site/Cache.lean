import DoxygenMarkdown.Proofs.Site.Step

/-!
# The files that a site keeps

A site keeps the runs of a file from the first time that it can be read, whatever becomes of the
file afterwards. Seen from a page, that is as if the file were still as it was then:

* what is kept for a path is what was read there first (`Remembers`), and a page leaves it that
  way, even if it is stopped (`isHistory_renderWith`). A file that cannot be read is not kept;
* what comes of a page depends on what is *seen* of each file, kept or not (`look`), and on the
  settings and the folder of the site, but on nothing else (`outcome_renderWith`);
* a site that keeps files sees what a site that keeps none sees, if the files that were read are
  as they were when they were first read (`Remembers.look_eq`, with `seenFirst`).
-/

namespace DoxygenMarkdown.Site

/-! ## What was read first -/

/-- The runs in the content of a file. -/
def runsIn (bytes : Bytes) : List Bindings.DocRun := Bindings.runs (Batch.textOf bytes)

/-- What a file held when it could first be read. -/
def firstRead (readings : List Reading) (path : Text) : Option Bytes :=
  readings.findSome? fun reading => if reading.path = path then reading.content.toOption else none

/-- Files where those that were read are as they were when they were first read. -/
def seenFirst (readings : List Reading) (files : Files) : Files := fun path =>
  match firstRead readings path with
  | some bytes => .ok bytes
  | none => files path

/-- The files that are kept are those that were read, with the runs that they had first. -/
def Remembers (cache : Cache) (readings : List Reading) : Prop :=
  ∀ path, cache.lookup path = (firstRead readings path).map runsIn

theorem firstRead_concat (readings : List Reading) (path path' : Text)
    (content : Except FileError Bytes) :
    firstRead (readings ++ [⟨path, content⟩]) path' =
      (firstRead readings path').or (if path = path' then content.toOption else none) := by
  rw [firstRead, List.findSome?_append, List.findSome?_singleton]
  rfl

theorem remembers_nil : Remembers [] [] := fun _ => rfl

/-- Nothing is kept of a file that cannot be read. -/
theorem Remembers.concat_error {cache : Cache} {readings : List Reading}
    (h : Remembers cache readings) (path : Text) (e : FileError) :
    Remembers cache (readings ++ [⟨path, .error e⟩]) := by
  intro path'
  rw [firstRead_concat, h path']
  simp [Except.toOption]

/-- A file that was not kept is kept from when it is read. -/
theorem Remembers.concat_ok {cache : Cache} {readings : List Reading}
    (h : Remembers cache readings) {path : Text} (hpath : cache.lookup path = none)
    (bytes : Bytes) :
    Remembers ((path, runsIn bytes) :: cache) (readings ++ [⟨path, .ok bytes⟩]) := by
  intro path'
  rw [firstRead_concat, List.lookup_cons]
  by_cases heq : path' = path
  · -- the file was not kept, so it could not be read before
    subst heq
    have hnone : firstRead readings path' = none := by
      rw [h path'] at hpath
      exact Option.map_eq_none_iff.1 hpath
    simp [hnone, Except.toOption]
  · simp [beq_false_of_ne heq, Ne.symm heq, h path']

/-- Seen as they were when they were first read, files that have not changed are as they are. -/
theorem seenFirst_eq_self {readings : List Reading} {files : Files}
    (h : ∀ reading ∈ readings, reading.content = files reading.path) :
    seenFirst readings files = files := by
  funext path
  rw [seenFirst]
  split
  · next bytes hbytes =>
    obtain ⟨reading, hmem, hreading⟩ := List.exists_of_findSome?_eq_some hbytes
    have hcontent := h reading hmem
    split at hreading
    · next hpath =>
      rw [hpath] at hcontent
      rw [← hcontent]
      cases hc : reading.content with
      | error e => rw [hc] at hreading; cases hreading
      | ok bytes' => rw [hc] at hreading; cases hreading; rfl
    · cases hreading
  · rfl

/-! ## Looking up runs -/

/-- The runs of a file, seen by a site that keeps some. -/
def look (files : Files) (cache : Cache) (path : Text) : Except FileError (List Bindings.DocRun) :=
  match cache.lookup path with
  | some runs => .ok runs
  | none => (files path).map runsIn

/-- What looking up runs leads to. A path that no file can have stops the page. -/
def lookedUp (found : Except FileError (List Bindings.DocRun)) :
    Except Failure (Except FileError (List Bindings.DocRun)) :=
  match found with
  | .error e => if e.cause = .nullCharacter then .error (.badPath e) else .ok (.error e)
  | .ok runs => .ok (.ok runs)

theorem look_of_kept {files : Files} {cache : Cache} {path : Text} {runs : List Bindings.DocRun}
    (h : cache.lookup path = some runs) : look files cache path = .ok runs := by
  rw [look, h]

theorem look_of_none {files : Files} {cache : Cache} {path : Text}
    (h : cache.lookup path = none) : look files cache path = (files path).map runsIn := by
  rw [look, h]

/-- To keep the runs of a file does not change what is seen. -/
theorem look_cons {files : Files} {path : Text} {bytes : Bytes} (hfile : files path = .ok bytes)
    {cache : Cache} (hpath : cache.lookup path = none) (path' : Text) :
    look files ((path, runsIn bytes) :: cache) path' = look files cache path' := by
  by_cases heq : path' = path
  · subst heq
    rw [look_of_none hpath, hfile, look_of_kept (List.lookup_cons_self)]
    rfl
  · rw [look, look, List.lookup_cons, beq_false_of_ne heq]

section RunsOf

variable {files : Files} {path : Text} {p : Progress}

theorem exec_get (p : Progress) : Step.exec get p = (.ok p, p) := rfl

theorem exec_readFile (files : Files) (path : Text) (p : Progress) :
    (readFile files path).exec p =
      (.ok (files path), { p with readings := p.readings ++ [⟨path, files path⟩] }) := rfl

/-- Runs that are kept are not read again. -/
theorem exec_runsOf_of_kept {runs : List Bindings.DocRun} (h : p.cache.lookup path = some runs) :
    (runsOf files path).exec p = (.ok (.ok runs), p) := by
  rw [runsOf, Step.exec_bind_of_ok (exec_get p), h]
  rfl

/-- Runs that are not kept are read, and kept from then on. -/
theorem exec_runsOf_of_ok (h : p.cache.lookup path = none) {bytes : Bytes}
    (hfile : files path = .ok bytes) :
    (runsOf files path).exec p =
      (.ok (.ok (runsIn bytes)),
        { p with
          cache := (path, runsIn bytes) :: p.cache
          readings := p.readings ++ [⟨path, .ok bytes⟩] }) := by
  have hread := exec_readFile files path p
  rw [hfile] at hread
  rw [runsOf, Step.exec_bind_of_ok (exec_get p), h]
  exact (Step.exec_bind_of_ok hread _).trans rfl

/-- A file that cannot be read is not kept. -/
theorem exec_runsOf_of_error (h : p.cache.lookup path = none) {e : FileError}
    (hfile : files path = .error e) :
    (runsOf files path).exec p =
      (lookedUp (.error e), { p with readings := p.readings ++ [⟨path, .error e⟩] }) := by
  have hread := exec_readFile files path p
  rw [hfile] at hread
  rw [runsOf, Step.exec_bind_of_ok (exec_get p), h]
  refine (Step.exec_bind_of_ok hread _).trans ?_
  by_cases hnull : e.cause = .nullCharacter
  · simp only [lookedUp, hnull, if_true]
    rfl
  · simp only [lookedUp, hnull, if_false]
    rfl

/-- What is seen is what is found, and it stays the same. -/
theorem exec_runsOf (files : Files) (path : Text) (p : Progress) :
    ((runsOf files path).exec p).1 = lookedUp (look files p.cache path) ∧
      ((runsOf files path).exec p).2.events = p.events ∧
      look files ((runsOf files path).exec p).2.cache = look files p.cache := by
  cases hkept : p.cache.lookup path with
  | some runs =>
    rw [exec_runsOf_of_kept hkept, look_of_kept hkept]
    exact ⟨rfl, rfl, rfl⟩
  | none =>
    rw [look_of_none hkept]
    cases hfile : files path with
    | error e =>
      rw [exec_runsOf_of_error hkept hfile]
      exact ⟨rfl, rfl, rfl⟩
    | ok bytes =>
      rw [exec_runsOf_of_ok hkept hfile]
      exact ⟨rfl, rfl, funext (look_cons hfile hkept)⟩

end RunsOf

/-! ## Rendering a page -/

/-- What comes of a page for those who look at it: its text, or what stopped it, and the events. -/
def Rendered.outcome (r : Rendered) : Except Failure Text × List Event := (r.result, r.events)

/-- Progress with the same events, of sites that see the same runs. -/
structure SameRuns (files files' : Files) (p q : Progress) : Prop where
  events : p.events = q.events
  look : look files p.cache = look files' q.cache

theorem agree_runsOf (files files' : Files) (path : Text) :
    Agree (SameRuns files files') (runsOf files path) (runsOf files' path) := by
  intro p q h
  obtain ⟨hresult, hevents, hlook⟩ := exec_runsOf files path p
  obtain ⟨hresult', hevents', hlook'⟩ := exec_runsOf files' path q
  refine ⟨?_, ?_, ?_⟩
  · rw [hresult, hresult', h.look]
  · rw [hevents, hevents', h.events]
  · rw [hlook, hlook', h.look]

theorem ignoresEvents_sameRuns (files files' : Files) : IgnoresEvents (SameRuns files files') :=
  fun _ _ es h => ⟨congrArg (· ++ es) h.events, h.look⟩

/-- What comes of a page depends on the settings, the folder and what is seen of files. -/
theorem outcome_renderWith {files files' : Files} {site site' : Site}
    (hsettings : site.settings = site'.settings) (hroot : site.root = site'.root)
    (hlook : look files site.cache = look files' site'.cache) (page : Page) :
    (renderWith files site page).outcome = (renderWith files' site' page).outcome := by
  have hagree := agree_replaceAll (ignoresEvents_sameRuns files files')
    (agree_runsOf files files') hsettings hroot page
  obtain ⟨hresult, hafter⟩ := hagree { cache := site.cache } { cache := site'.cache } ⟨rfl, hlook⟩
  rw [renderWith_of_exec rfl, renderWith_of_exec rfl, Rendered.outcome, Rendered.outcome]
  exact Prod.ext hresult hafter.events

/-- What is kept stands for the files that were read. -/
theorem Remembers.look_eq {cache : Cache} {readings : List Reading} (h : Remembers cache readings)
    (files : Files) : look files cache = look (seenFirst readings files) [] := by
  funext path
  have hpath := h path
  rw [look_of_none (List.lookup_nil), seenFirst]
  cases hread : firstRead readings path with
  | some bytes =>
    rw [hread] at hpath
    exact look_of_kept hpath
  | none =>
    rw [hread] at hpath
    exact look_of_none hpath

/-- Progress of a page that sees some files, after others were read. -/
structure IsHistory (files : Files) (before : List Reading) (p : Progress) : Prop where
  remembers : Remembers p.cache (before ++ p.readings)
  readings : ∀ reading ∈ p.readings, reading.content = files reading.path

/-- Looking up runs reads what is there, and keeps what was read first. -/
theorem isHistory_runsOf {files : Files} {before : List Reading} {p : Progress}
    (h : IsHistory files before p) (path : Text) :
    IsHistory files before ((runsOf files path).exec p).2 := by
  have hconcat : ∀ reading ∈ p.readings ++ [⟨path, files path⟩],
      reading.content = files reading.path := by
    intro reading hmem
    rcases List.mem_append.1 hmem with hmem | hmem
    · exact h.readings reading hmem
    · rw [List.mem_singleton.1 hmem]
  cases hkept : p.cache.lookup path with
  | some runs => rwa [exec_runsOf_of_kept hkept]
  | none =>
    cases hfile : files path with
    | error e =>
      rw [hfile] at hconcat
      rw [exec_runsOf_of_error hkept hfile]
      refine ⟨?_, hconcat⟩
      rw [← List.append_assoc]
      exact h.remembers.concat_error path e
    | ok bytes =>
      rw [hfile] at hconcat
      rw [exec_runsOf_of_ok hkept hfile]
      refine ⟨?_, hconcat⟩
      rw [← List.append_assoc]
      exact h.remembers.concat_ok hkept bytes

/-- A page leaves its site with what was read first, whatever comes of it. -/
theorem isHistory_renderWith {site : Site} {before : List Reading}
    (h : Remembers site.cache before) (files : Files) (page : Page) :
    IsHistory files before
      { cache := (renderWith files site page).site.cache
        readings := (renderWith files site page).readings } := by
  -- relating a rendering to itself shows what holds at its end, even if it was stopped
  let R : Progress → Progress → Prop := fun p q => p = q ∧ IsHistory files before p
  have hR : IgnoresEvents R := by
    rintro p q es ⟨rfl, h⟩
    exact ⟨rfl, h.remembers, h.readings⟩
  have hruns (path : Text) : Agree R (runsOf files path) (runsOf files path) := by
    rintro p q ⟨rfl, h⟩
    exact ⟨rfl, rfl, isHistory_runsOf h path⟩
  have hstart : IsHistory files before { cache := site.cache } := by
    refine ⟨?_, fun reading hmem => absurd hmem List.not_mem_nil⟩
    rwa [List.append_nil]
  obtain ⟨-, -, hafter⟩ := agree_replaceAll hR hruns rfl rfl page _ _ ⟨rfl, hstart⟩
  rw [renderWith_of_exec rfl]
  exact ⟨hafter.remembers, hafter.readings⟩

end DoxygenMarkdown.Site

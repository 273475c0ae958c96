import DoxygenMarkdown.Proofs.Site.Cache

/-!
# Runs of a site

A site is configured, renders pages and is configured again, and in between files are written and
removed, in any order (`Action`, `Run.after`). Along every such run the files that the site keeps
are those that were read since it was configured, as they were when they were first read. Nobody
who looks at the pages can tell that they are kept: **`Run.after_transparent`**.

A step preserves what is known of a run (`Run.IsSound.step`), and so does a run as a whole.
-/

namespace DoxygenMarkdown.Site

/-- What happens to a site and its files. -/
inductive Action where
  | configure (settings : Settings) (file : Option Text)
  | render (page : Page)
  | write (path : Text) (bytes : Bytes)
  | remove (path : Text)

/-- A look at a file: its path, and the tree at that time. -/
structure Look where
  tree : FileTree
  path : Text

/-- What is there to be read at the time of a look. -/
def Look.reading (l : Look) : Reading := ⟨l.path, l.tree.read l.path⟩

/-! ## What was read first -/

/-- What a path led to when it could first be read, after looks at which it could not. -/
inductive IsFirstRead (looks : List Look) (path : Text) (bytes : Bytes) : Prop
  | at (before after : List Look) (tree : FileTree)
    (hlooks : looks = before ++ ⟨tree, path⟩ :: after) (hbytes : tree.read path = .ok bytes)
    (hbefore : ∀ l ∈ before, l.path = path → ∃ e, l.tree.read path = .error e)

/-- What is found at a look for a path. -/
def Look.found? (path : Text) (l : Look) : Option Bytes :=
  if l.path = path then (l.tree.read l.path).toOption else none

/-- What a look finds are the bytes of the file at that time. -/
theorem Look.found?_eq_some_iff {path : Text} {bytes : Bytes} {l : Look} :
    l.found? path = some bytes ↔ l.path = path ∧ l.tree.read path = .ok bytes := by
  rw [found?]
  split
  · next h =>
    rw [h, and_iff_right rfl]
    cases l.tree.read path with
    | error e => exact iff_of_false nofun nofun
    | ok b => exact ⟨fun h => congrArg _ (Option.some.inj h), fun h => congrArg _ (Except.ok.inj h)⟩
  · next h => exact iff_of_false nofun fun h' => h h'.1

/-- A look at the path finds nothing if the file could not be read at that time. -/
theorem Look.found?_eq_none_iff {path : Text} {l : Look} :
    l.found? path = none ↔ (l.path = path → ∃ e, l.tree.read path = .error e) := by
  rw [found?]
  split
  · next h =>
    rw [h, forall_prop_of_true rfl]
    cases l.tree.read path with
    | error e => exact iff_of_true rfl ⟨e, rfl⟩
    | ok b => exact iff_of_false nofun fun ⟨_, h⟩ => nomatch h
  · next h => exact iff_of_true rfl fun h' => absurd h' h

/-- The first content that was read is what the first look that found something found. -/
theorem firstRead_map_reading (looks : List Look) (path : Text) :
    firstRead (looks.map Look.reading) path = looks.findSome? (Look.found? path) :=
  List.findSome?_map

/-- What was read first is what is found at the first look that finds something. -/
theorem isFirstRead_iff {looks : List Look} {path : Text} {bytes : Bytes} :
    IsFirstRead looks path bytes ↔ firstRead (looks.map Look.reading) path = some bytes := by
  rw [firstRead_map_reading, List.findSome?_eq_some_iff]
  constructor
  · rintro ⟨before, after, tree, hlooks, hbytes, hbefore⟩
    exact ⟨before, ⟨tree, path⟩, after, hlooks, Look.found?_eq_some_iff.2 ⟨rfl, hbytes⟩,
      fun l hl => Look.found?_eq_none_iff.2 (hbefore l hl)⟩
  · rintro ⟨before, ⟨tree, path'⟩, after, hlooks, hfound, hbefore⟩
    obtain ⟨rfl, hbytes⟩ := Look.found?_eq_some_iff.1 hfound
    exact ⟨before, after, tree, hlooks, hbytes,
      fun l hl => Look.found?_eq_none_iff.1 (hbefore l hl)⟩

/-! ## Runs -/

/-- A site and its files, with what happened since the site was configured. -/
structure Run where
  tree : FileTree
  site : Site := {}
  /-- The settings and the file that the site was last configured with. -/
  configuration : Option (Settings × Option Text) := none
  /-- The looks at files since then. -/
  looks : List Look := []

namespace Run

/-- The run after an action. A file that is not there cannot be removed. -/
def step (r : Run) : Action → Run
  | .configure settings file =>
    { r with
      site := (configure r.tree settings file).1
      configuration := some (settings, file)
      looks := [] }
  | .render page =>
    let rendered := Site.render r.tree r.site page
    { r with
      site := rendered.site
      looks := r.looks ++ rendered.readings.map fun reading => ⟨r.tree, reading.path⟩ }
  | .write path bytes => { r with tree := r.tree.install path bytes }
  | .remove path => { r with tree := (r.tree.remove path).toOption.getD r.tree }

/-- The run after some actions. -/
def after (r : Run) (actions : List Action) : Run := actions.foldl step r

/-- What the files held that were looked at, each at the time of the look. -/
def readings (r : Run) : List Reading := r.looks.map Look.reading

/-- A site that is configured as the one of the run was, and has rendered no page yet. -/
def fresh (r : Run) : Site :=
  match r.configuration with
  | some (settings, file) => (configure r.tree settings file).1
  | none => {}

/-- What is known of a run: the site remembers the readings, and is otherwise as it was when it was
configured. -/
structure IsSound (r : Run) : Prop where
  remembers : Remembers r.site.cache r.readings
  settings : r.site.settings = r.fresh.settings
  root : r.site.root = r.fresh.root

theorem isSound_start (tree : FileTree) : IsSound { tree := tree } := ⟨remembers_nil, rfl, rfl⟩

/-- Configuring a site makes use of files only to tell where relative paths start. -/
theorem configure_congr {tree tree' : FileTree} (h : tree.here = tree'.here) (settings : Settings)
    (file : Option Text) : configure tree settings file = configure tree' settings file := by
  unfold configure
  rw [h]

/-- A change of files does not matter to a site that has rendered no page. -/
theorem fresh_setTree {r : Run} {tree : FileTree} (h : tree.here = r.tree.here) :
    fresh { r with tree := tree } = r.fresh := by
  rw [fresh, fresh]
  cases r.configuration with
  | none => rfl
  | some c => exact congrArg Prod.fst (configure_congr h c.1 c.2)

theorem IsSound.setTree {r : Run} (h : r.IsSound) {tree : FileTree}
    (hhere : tree.here = r.tree.here) : IsSound { r with tree := tree } where
  remembers := h.remembers
  settings := by rw [fresh_setTree hhere]; exact h.settings
  root := by rw [fresh_setTree hhere]; exact h.root

theorem here_remove (tree : FileTree) (path : Text) :
    ((tree.remove path).toOption.getD tree).here = tree.here := by
  rw [FileTree.remove]
  cases tree.find path <;> rfl

/-- A page is rendered with the files as they are at that time. -/
theorem readings_step_render {r : Run} (h : r.IsSound) (page : Page) :
    (r.step (.render page)).readings = r.readings ++ (Site.render r.tree r.site page).readings := by
  have hhistory := isHistory_renderWith h.remembers r.tree.read page
  rw [readings, step, List.map_append, List.map_map]
  refine congrArg (r.readings ++ ·) ((List.map_congr_left fun reading hmem => ?_).trans
    (List.map_id _))
  have hcontent := hhistory.readings reading hmem
  cases reading
  exact congrArg _ hcontent.symm

/-- Each action preserves what is known of a run. -/
theorem IsSound.step {r : Run} (h : r.IsSound) (a : Action) : (r.step a).IsSound := by
  cases a with
  | configure settings file => exact ⟨remembers_nil, rfl, rfl⟩
  | render page =>
    refine ⟨?_, h.settings, h.root⟩
    rw [readings_step_render h page]
    exact (isHistory_renderWith h.remembers r.tree.read page).remembers
  | write path bytes => exact h.setTree rfl
  | remove path => exact h.setTree (here_remove r.tree path)

/-- Whatever is done with a run, its cache remembers what was read first. -/
theorem IsSound.after {r : Run} (h : r.IsSound) (actions : List Action) :
    (r.after actions).IsSound := by
  induction actions generalizing r with
  | nil => exact h
  | cons a actions ih => exact ih (h.step a)

/-- What is kept for a path are the runs that were there when it could first be read. -/
theorem IsSound.lookup_eq_some_iff {r : Run} (h : r.IsSound) (path : Text)
    (runs : List Bindings.DocRun) :
    r.site.cache.lookup path = some runs ↔
      ∃ bytes, IsFirstRead r.looks path bytes ∧ runs = Bindings.runs (Batch.textOf bytes) := by
  rw [h.remembers, Option.map_eq_some_iff]
  exact exists_congr fun bytes => and_congr isFirstRead_iff.symm eq_comm

/-- A sound run sees what a site sees that keeps nothing, if files are as they were first read. -/
theorem IsSound.outcome_render {r : Run} (h : r.IsSound) (page : Page) :
    (Site.render r.tree r.site page).outcome =
      (renderWith (seenFirst r.readings r.tree.read) r.fresh page).outcome := by
  have hfresh : r.fresh.cache = [] := by
    rw [fresh]
    cases r.configuration <;> rfl
  refine outcome_renderWith h.settings h.root ?_ page
  rw [h.remembers.look_eq, hfresh]

/-- A later run with the same files and the same configuration, since when no file has changed. -/
structure IsUnchanged (first later : Run) : Prop where
  tree : later.tree = first.tree
  fresh : later.fresh = first.fresh
  looks : ∀ l ∈ later.looks, l.tree = first.tree

/-- Rendering pages changes no file. -/
theorem IsUnchanged.after {first later : Run} (h : IsUnchanged first later) (pages : List Page) :
    IsUnchanged first (later.after (pages.map .render)) := by
  induction pages generalizing later with
  | nil => exact h
  | cons page pages ih =>
    refine ih ⟨h.tree, h.fresh, ?_⟩
    intro l hmem
    rcases List.mem_append.1 hmem with hmem | hmem
    · exact h.looks l hmem
    · obtain ⟨reading, -, rfl⟩ := List.mem_map.1 hmem
      exact h.tree

/-- Files that have not changed are seen as they are. -/
theorem IsUnchanged.outcome_render {first later : Run} (h : IsUnchanged first later)
    (hsound : later.IsSound) (page : Page) :
    (Site.render later.tree later.site page).outcome =
      (Site.render first.tree first.fresh page).outcome := by
  have hseen : seenFirst later.readings first.tree.read = first.tree.read := by
    refine seenFirst_eq_self fun reading hmem => ?_
    obtain ⟨l, hl, rfl⟩ := List.mem_map.1 hmem
    rw [Look.reading, h.looks l hl]
  rw [hsound.outcome_render, h.tree, h.fresh, hseen]
  rfl

/-- **Keeping files cannot be seen.** In every run of a site, at any time:

* what is kept for a path are the runs that the file held when it could first be read since the site
  was configured. Nothing is kept for a path that could never be read;
* a page comes out as a site would render it that was configured just now, on files of which those
  that were read since the site was configured are as they were when they were first read;
* once the site is configured, as long as no file changes, a page comes out as if it were the first
  one. -/
theorem after_transparent (tree : FileTree) (actions : List Action) :
    let r : Run := after { tree := tree } actions
    (∀ path runs, r.site.cache.lookup path = some runs ↔
      ∃ bytes, IsFirstRead r.looks path bytes ∧ runs = Bindings.runs (Batch.textOf bytes)) ∧
    (∀ path, (∀ l ∈ r.looks, l.path = path → ∃ e, l.tree.read path = .error e) →
      r.site.cache.lookup path = none) ∧
    (∃ files : Files, (∀ path bytes, IsFirstRead r.looks path bytes → files path = .ok bytes) ∧
      (∀ path, r.site.cache.lookup path = none → files path = r.tree.read path) ∧
      ∀ page, (Site.render r.tree r.site page).outcome =
        (renderWith files r.fresh page).outcome) ∧
    (∀ settings file (pages : List Page) page,
      let first := r.step (.configure settings file)
      let later := first.after (pages.map .render)
      (Site.render later.tree later.site page).outcome =
        (Site.render first.tree first.site page).outcome) := by
  intro r
  have hsound : r.IsSound := (isSound_start tree).after actions
  refine ⟨hsound.lookup_eq_some_iff, fun path hnone => ?_, ?_, ?_⟩
  · have hread : firstRead r.readings path = none := by
      rw [readings, firstRead_map_reading, List.findSome?_eq_none_iff]
      exact fun l hl => Look.found?_eq_none_iff.2 (hnone l hl)
    rw [hsound.remembers, hread]
    rfl
  · refine ⟨seenFirst r.readings r.tree.read, fun path bytes hfirst => ?_, fun path hnone => ?_,
      hsound.outcome_render⟩
    · rw [seenFirst, readings, isFirstRead_iff.1 hfirst]
    · rw [hsound.remembers, Option.map_eq_none_iff] at hnone
      rw [seenFirst, hnone]
  · intro settings file pages page first later
    have hfirst : first.IsSound := hsound.step (.configure settings file)
    have hunchanged : IsUnchanged first first :=
      ⟨rfl, rfl, fun l hmem => absurd hmem List.not_mem_nil⟩
    exact (hunchanged.after pages).outcome_render (hfirst.after _) page

/-- A file that was not there for the first page is kept as the second one found it, although it was
written again since then. -/
example :
    let page : Page :=
      { markdown := "::: doxygen:bindgen\n  :file: a.rs\n".toList, path := "index.md".toList }
    let r := after { tree := {} } [
      .configure {} (some "/mkdocs.yml".toList), .render page,
      .write "a.rs".toList (Utf8.encode "#[doc = \"x\"]".toList), .render page,
      .write "a.rs".toList []]
    r.looks.length = 2 ∧ r.site.cache.lookup "/a.rs".toList =
      some [⟨1, [], "x".toList, [], ["#[doc = \"x\"]".toList]⟩] := by
  decide +kernel

end Run

end DoxygenMarkdown.Site

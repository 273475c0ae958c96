import DoxygenMarkdown.Proofs.Site.Cache
import Mathlib.Data.List.TakeWhile

/-!
# Strict sites

A page meets comments: first those in its fenced blocks, then the runs that its directives ask for
(`met`). Which ones it meets does not depend on whether its site is strict. If they can all be read,
a strict site and a lenient one do the same with the page. Otherwise the strict site stops at the
first that cannot be read, and up to there it has done what the lenient one did:
**`render_strict`**.

The two renderings are followed side by side. `Meets` says of a lenient step and its strict
counterpart which comments they meet, and each kind of step has one lemma about that. Looking up the
runs of a file meets nothing by itself, and what is seen of files stays the same all along
(`exec_runsOf`), so the comments are known beforehand.
-/

namespace DoxygenMarkdown.Site

open Bindings (DocRun)

/-- Settings that are strict or not. -/
def Settings.withStrict (settings : Settings) (strict : Bool) : Settings :=
  { settings with strict := strict }

/-- A site that is strict or not. -/
def withStrict (site : Site) (strict : Bool) : Site :=
  { site with settings := site.settings.withStrict strict }

/-! ## The comments that a page meets -/

/-- A comment, and the place that is named if it cannot be read. -/
structure PlacedComment where
  place : Text
  comment : Text
deriving DecidableEq, Repr

/-- What is wrong with a comment, and where. -/
def PlacedComment.mistake? (c : PlacedComment) : Option (Text × DirectionError) :=
  match Comment.elements c.comment with
  | .ok _ => none
  | .error e => some (c.place, e)

/-- The mistakes in some comments, in order. -/
def mistakes (cs : List PlacedComment) : List (Text × DirectionError) :=
  cs.filterMap PlacedComment.mistake?

/-- The mistake that an event reports. -/
def Event.mistake? : Event → Option (Text × DirectionError)
  | .unreadable place e => some (place, e)
  | _ => none

/-- The block that a part is. -/
def Part.block? {β : Type} : Part β → Option β
  | .line _ => none
  | .block b => some b

/-- A fenced block after the first pass: its comment is rendered if it can be read. -/
def FencedBlock.shown (settings : Settings) (b : FencedBlock) : Text :=
  match renderComment settings.headingLevel.toInt b.comment with
  | .ok rendering => indentLines b.indent rendering.text.trimEndBreaks ++ b.closing.lineBreak
  | .error _ => b.source ++ b.closing.lineBreak

/-- A part of a page after the first pass. -/
def Part.afterBlocks (settings : Settings) : Part FencedBlock → Text
  | .line l => l
  | .block b => b.shown settings

/-- The fenced blocks of a page, and the lines around them. -/
def blockParts (settings : Settings) (page : Page) : List (Part FencedBlock) :=
  cut (FencedBlock.find? settings.fence) 0 page.markdown.fullLines

/-- A page after the first pass. -/
def afterBlocks (settings : Settings) (page : Page) : Text :=
  (blockParts settings page).flatMap (Part.afterBlocks settings)

/-- The directives of a page. A block that stays as it is may hold some. -/
def directives (settings : Settings) (page : Page) : List Directive :=
  (cut Directive.find? 0 (afterBlocks settings page).fullLines).filterMap Part.block?

/-- What a site sees of the files of bindings. -/
abbrev Seen := Text → Except FileError (List DocRun)

/-- The runs that a directive asks for: the first one of the item that it names, or all runs. -/
def Directive.chosen (d : Directive) (runs : List DocRun) : List DocRun :=
  match (d.value? "name").getD [] with
  | [] => runs
  | c :: name => (runs.find? (·.item = c :: name)).toList

/-- A run of a file, and where it stands. -/
def placed (path : Text) (r : DocRun) : PlacedComment :=
  ⟨path ++ ':' :: (toString r.line).toList, r.comment⟩

/-- The comments that a directive meets. -/
def Directive.met (seen : Seen) (root : Text) (d : Directive) : List PlacedComment :=
  match (d.value? "file").getD [] with
  | [] => []
  | c :: file =>
    match seen (pathOf root (c :: file)) with
    | .error _ => []
    | .ok runs => (d.chosen runs).map (placed (pathOf root (c :: file)))

/-- Whether a directive stops a page, strict or not: it names a path that no file can have. -/
def Directive.stops (seen : Seen) (root : Text) (d : Directive) : Bool :=
  match (d.value? "file").getD [] with
  | [] => false
  | c :: file =>
    match seen (pathOf root (c :: file)) with
    | .error e => e.cause = .nullCharacter
    | .ok _ => false

/-- The comments that a page meets, in order. -/
def met (seen : Seen) (site : Site) (page : Page) : List PlacedComment :=
  ((blockParts site.settings page).filterMap Part.block?).map (⟨page.name, ·.comment⟩) ++
    ((directives site.settings page).takeWhile (!·.stops seen site.root)).flatMap
      (·.met seen site.root)

/-! ## Two renderings side by side -/

/-- Where a lenient step and its strict counterpart lead from progress `p`: the lenient one to `r`,
and it reports what is wrong with the comments `cs`. -/
structure MeetsFrom {α : Type} (files : Files) (x y : Step α) (r : Except Failure α)
    (cs : List PlacedComment) (p q : Progress) (es : List Event) : Prop where
  lenient : x.exec p = (r, q)
  look : look files q.cache = look files p.cache
  events : q.events = p.events ++ es
  reported : es.filterMap Event.mistake? = mistakes cs
  /-- Where nothing is wrong, the strict step does the same. -/
  strict : mistakes cs = [] → y.exec p = (r, q)
  /-- Otherwise it stops at the first mistake, after what was reported before that. -/
  stopped : ∀ place e, (mistakes cs).head? = some (place, e) → ∃ q',
    y.exec p = (.error (.unreadable place e), q') ∧
      q'.events = p.events ++ es.takeWhile (·.mistake?.isNone)
  /-- The lenient step is not stopped by a mistake. -/
  goesOn : ∀ place e, r ≠ .error (.unreadable place e)

/-- Two steps, a lenient one and its strict counterpart, that meet some comments wherever a site
sees `seen`. -/
def Meets {α : Type} (files : Files) (seen : Seen) (x y : Step α) (r : Except Failure α)
    (cs : List PlacedComment) : Prop :=
  ∀ p, look files p.cache = seen → ∃ q es, MeetsFrom files x y r cs p q es

theorem mistakes_append (cs ds : List PlacedComment) :
    mistakes (cs ++ ds) = mistakes cs ++ mistakes ds := List.filterMap_append

/-- Events that report no mistake do not end the part of a log before the first one. -/
theorem takeWhile_append_of_mistakes_eq_nil {es : List Event}
    (h : es.filterMap Event.mistake? = []) (fs : List Event) :
    (es ++ fs).takeWhile (·.mistake?.isNone) = es ++ fs.takeWhile (·.mistake?.isNone) :=
  List.takeWhile_append_of_pos fun event hevent =>
    Option.isNone_iff_eq_none.2 (List.filterMap_eq_nil_iff.1 h event hevent)

/-- Events that report a mistake end it. -/
theorem takeWhile_append_of_mistakes_ne_nil {es : List Event}
    (h : es.filterMap Event.mistake? ≠ []) (fs : List Event) :
    (es ++ fs).takeWhile (·.mistake?.isNone) = es.takeWhile (·.mistake?.isNone) := by
  induction es with
  | nil => exact absurd rfl h
  | cons event es ih =>
    rw [List.cons_append, List.takeWhile_cons, List.takeWhile_cons]
    cases hevent : event.mistake? with
    | some mistake => rfl
    | none =>
      rw [List.filterMap_cons_none hevent] at h
      simp only [Option.isNone_none, if_true, ih h]

section Meets

variable {α β : Type} {files : Files} {seen : Seen}

/-- A step that only tells something, and tells of no mistake. -/
theorem Tells.meets {x : Step α} {a : α} {es : List Event} (hx : Tells x (.ok a) es)
    (hes : es.filterMap Event.mistake? = []) : Meets files seen x x (.ok a) [] := fun p _ =>
  ⟨p.tell es, es, hx p, rfl, rfl, hes, fun _ => hx p, fun _ _ => nofun, fun _ _ => nofun⟩

theorem meets_pure (a : α) : Meets files seen (pure a) (pure a) (.ok a) [] :=
  (tells_pure a).meets rfl

/-- To report something else meets nothing. -/
theorem meets_report {es : List Event} (hes : es.filterMap Event.mistake? = []) (a : α) :
    Meets files seen (report es >>= fun _ => pure a) (report es >>= fun _ => pure a) (.ok a) [] :=
  Tells.meets ((tells_report es).bind_pure rfl) hes

theorem Meets.bind {x y : Step α} {f g : α → Step β} {a : α} {r : Except Failure β}
    {cs ds : List PlacedComment} (hxy : Meets files seen x y (.ok a) cs)
    (hfg : Meets files seen (f a) (g a) r ds) :
    Meets files seen (x >>= f) (y >>= g) r (cs ++ ds) := by
  intro p hp
  obtain ⟨q, es, hx⟩ := hxy p hp
  obtain ⟨q', fs, hf⟩ := hfg q (hx.look.trans hp)
  refine ⟨q', es ++ fs, ?_, hf.look.trans hx.look, ?_, ?_, fun hnone => ?_,
    fun place e hfirst => ?_, hf.goesOn⟩
  · rw [Step.exec_bind_of_ok hx.lenient, hf.lenient]
  · rw [hf.events, hx.events, List.append_assoc]
  · rw [List.filterMap_append, hx.reported, hf.reported, mistakes_append]
  · rw [mistakes_append, List.append_eq_nil_iff] at hnone
    rw [Step.exec_bind_of_ok (hx.strict hnone.1), hf.strict hnone.2]
  · rw [mistakes_append] at hfirst
    rcases hcs : mistakes cs with _ | ⟨mistake, more⟩
    · -- the first mistake is met by the second step
      rw [hcs, List.nil_append] at hfirst
      obtain ⟨q₂, hstop, hevents⟩ := hf.stopped place e hfirst
      refine ⟨q₂, ?_, ?_⟩
      · rw [Step.exec_bind_of_ok (hx.strict hcs), hstop]
      · rw [hevents, hx.events, takeWhile_append_of_mistakes_eq_nil (hx.reported.trans hcs),
          List.append_assoc]
    · rw [hcs] at hfirst
      obtain ⟨q₂, hstop, hevents⟩ := hx.stopped place e (by rw [hcs]; exact hfirst)
      have hsome : es.filterMap Event.mistake? ≠ [] := by
        rw [hx.reported, hcs]
        exact List.cons_ne_nil _ _
      refine ⟨q₂, Step.exec_bind_of_error hstop _, ?_⟩
      rw [hevents, takeWhile_append_of_mistakes_ne_nil hsome]

/-- What is stopped strict or not, stays stopped. -/
theorem Meets.bind_error {x y : Step α} {failure : Failure} {cs : List PlacedComment}
    (hxy : Meets files seen x y (.error failure) cs) (f g : α → Step β) :
    Meets files seen (x >>= f) (y >>= g) (.error failure) cs := by
  intro p hp
  obtain ⟨q, es, hx⟩ := hxy p hp
  refine ⟨q, es, Step.exec_bind_of_error hx.lenient f, hx.look, hx.events, hx.reported,
    fun hnone => Step.exec_bind_of_error (hx.strict hnone) g, fun place e hfirst => ?_,
    fun place e he => hx.goesOn place e (by rw [Except.error.inj he])⟩
  obtain ⟨q', hstop, hevents⟩ := hx.stopped place e hfirst
  exact ⟨q', Step.exec_bind_of_error hstop g, hevents⟩

/-- What is only done with the value that steps lead to meets nothing. -/
theorem Meets.bind_pure {x y : Step α} {f g : α → Step β} {a : α} {b : β}
    {cs : List PlacedComment} (hxy : Meets files seen x y (.ok a) cs) (hf : f a = pure b)
    (hg : g a = pure b) : Meets files seen (x >>= f) (y >>= g) (.ok b) cs := by
  have hpure : Meets files seen (f a) (g a) (.ok b) [] := by
    rw [hf, hg]
    exact meets_pure b
  have hbind := hxy.bind hpure
  rwa [List.append_nil] at hbind

theorem meets_mapM {f g : α → Step β} {cs : α → PlacedComment}
    (hfg : ∀ a, ∃ b, Meets files seen (f a) (g a) (.ok b) [cs a]) (as : List α) :
    ∃ bs, Meets files seen (as.mapM f) (as.mapM g) (.ok bs) (as.map cs) := by
  induction as with
  | nil => exact ⟨[], meets_pure []⟩
  | cons a as ih =>
    obtain ⟨b, hb⟩ := hfg a
    obtain ⟨bs, hbs⟩ := ih
    rw [List.mapM_cons, List.mapM_cons]
    exact ⟨b :: bs, hb.bind (hbs.bind_pure rfl rfl)⟩

/-- The lines around the blocks of a page meet nothing. -/
theorem meets_assemble {f g : β → Step Text} (shown : Part β → Text)
    (hline : ∀ l, shown (.line l) = l) {cs : β → PlacedComment}
    (hfg : ∀ b, Meets files seen (f b) (g b) (.ok (shown (.block b))) [cs b])
    (parts : List (Part β)) :
    Meets files seen (assemble f parts) (assemble g parts) (.ok (parts.flatMap shown))
      ((parts.filterMap Part.block?).map cs) := by
  induction parts with
  | nil => exact meets_pure []
  | cons part parts ih =>
    cases part with
    | line l =>
      rw [List.flatMap_cons, hline]
      exact ih.bind_pure rfl rfl
    | block b => exact (hfg b).bind (ih.bind_pure rfl rfl)

/-- Blocks are met up to the first one that stops the page. -/
theorem meets_assemble_of_stops {f g : β → Step Text} {stops : β → Bool}
    {cs : β → List PlacedComment}
    (hgo : ∀ b, stops b = false → ∃ t, Meets files seen (f b) (g b) (.ok t) (cs b))
    (hstop : ∀ b, stops b = true → ∃ e, Meets files seen (f b) (g b) (.error e) [])
    (parts : List (Part β)) :
    ∃ r, Meets files seen (assemble f parts) (assemble g parts) r
      (((parts.filterMap Part.block?).takeWhile (!stops ·)).flatMap cs) := by
  induction parts with
  | nil => exact ⟨_, meets_pure []⟩
  | cons part parts ih =>
    obtain ⟨r, ih⟩ := ih
    cases part with
    | line l =>
      rw [List.filterMap_cons_none (show Part.block? (.line l : Part β) = none from rfl)]
      cases r with
      | error e => exact ⟨_, ih.bind_error _ _⟩
      | ok t => exact ⟨_, ih.bind_pure rfl rfl⟩
    | block b =>
      rw [List.filterMap_cons_some (show Part.block? (.block b) = some b from rfl),
        List.takeWhile_cons]
      cases hb : stops b with
      | true =>
        obtain ⟨e, he⟩ := hstop b hb
        exact ⟨_, he.bind_error _ _⟩
      | false =>
        obtain ⟨t, ht⟩ := hgo b hb
        rw [Bool.not_false, if_pos rfl, List.flatMap_cons]
        cases r with
        | error e => exact ⟨_, ht.bind (ih.bind_error _ _)⟩
        | ok u => exact ⟨_, ht.bind (ih.bind_pure rfl rfl)⟩

end Meets

/-! ## What each step meets -/

section Steps

variable (files : Files) (seen : Seen)

theorem mistake?_of_error {c : PlacedComment} {level : Int} {e : DirectionError}
    (h : renderComment level c.comment = .error e) : c.mistake? = some (c.place, e) := by
  rw [renderComment] at h
  rw [PlacedComment.mistake?]
  cases hc : Comment.elements c.comment with
  | ok es => rw [hc] at h; cases h
  | error e' => rw [hc] at h; cases h; rfl

theorem mistake?_of_ok {c : PlacedComment} {level : Int} {rendering : Rendering}
    (h : renderComment level c.comment = .ok rendering) : c.mistake? = none := by
  rw [renderComment] at h
  rw [PlacedComment.mistake?]
  cases hc : Comment.elements c.comment with
  | ok es => rfl
  | error e' => rw [hc] at h; cases h

/-- A comment is met where it is rendered. -/
theorem meets_renderAt (settings : Settings) (place : Text) (level : Int) (comment : Text) :
    Meets files seen (renderAt (settings.withStrict false) place level comment)
      (renderAt (settings.withStrict true) place level comment)
      (.ok ((renderComment (settings.levelFrom level) comment).toOption.map (·.text)))
      [⟨place, comment⟩] := by
  intro p _
  cases h : renderComment (settings.levelFrom level) comment with
  | ok rendering =>
    have hok (strict : Bool) :
        renderComment ((settings.withStrict strict).levelFrom level) comment = .ok rendering := h
    have hnone : mistakes [⟨place, comment⟩] = [] := by
      rw [mistakes, List.filterMap_cons_none (mistake?_of_ok h), List.filterMap_nil]
    refine ⟨_, _, tells_renderAt_of_ok (hok false) place p, rfl, rfl, ?_,
      fun _ => tells_renderAt_of_ok (hok true) place p, fun _ _ hfirst => ?_, fun _ _ => nofun⟩
    · rw [hnone, List.filterMap_eq_nil_iff]
      intro event hevent
      obtain ⟨n, -, rfl⟩ := List.mem_map.1 hevent
      rfl
    · rw [hnone] at hfirst
      cases hfirst
  | error e =>
    have herror (strict : Bool) :
        renderComment ((settings.withStrict strict).levelFrom level) comment = .error e := h
    have hsome : mistakes [⟨place, comment⟩] = [(place, e)] := by
      rw [mistakes, List.filterMap_cons_some (mistake?_of_error h), List.filterMap_nil]
    refine ⟨_, _, tells_renderAt_of_error rfl (herror false) place p, rfl, rfl, hsome.symm,
      fun hnone => ?_, fun place' e' hfirst => ?_, fun _ _ => nofun⟩
    · rw [hsome] at hnone
      cases hnone
    · rw [hsome] at hfirst
      obtain ⟨rfl, rfl⟩ := Prod.mk.inj (Option.some.inj hfirst)
      exact ⟨_, tells_renderAt_of_strict rfl (herror true) place p, rfl⟩

/-- A fenced block meets the comment in it. -/
theorem meets_replaceBlock (settings : Settings) (page : Page) (b : FencedBlock) :
    Meets files seen (replaceBlock (settings.withStrict false) page b)
      (replaceBlock (settings.withStrict true) page b)
      (.ok (Part.afterBlocks settings (.block b))) [⟨page.name, b.comment⟩] := by
  refine (meets_renderAt files seen settings page.name 0 b.comment).bind_pure ?_ ?_
  all_goals
    -- blocks are rendered at level zero, which stands for the level of the site
    have hlevel : settings.levelFrom 0 = settings.headingLevel.toInt := if_pos rfl
    rw [hlevel, Part.afterBlocks, FencedBlock.shown]
    cases renderComment settings.headingLevel.toInt b.comment <;> rfl

theorem meets_renderRun (settings : Settings) (path : Text) (level : Int) (r : DocRun) :
    ∃ t, Meets files seen (renderRun (settings.withStrict false) path level r)
      (renderRun (settings.withStrict true) path level r) (.ok t) [placed path r] := by
  have hmeets := meets_renderAt files seen settings
    (path ++ ':' :: (toString r.line).toList) level r.comment
  cases hr : renderComment (settings.levelFrom level) r.comment with
  | ok rendering =>
    rw [hr] at hmeets
    exact ⟨_, hmeets.bind_pure rfl rfl⟩
  | error e =>
    rw [hr] at hmeets
    exact ⟨_, hmeets.bind_pure rfl rfl⟩

theorem meets_renderTitled (settings : Settings) (path : Text) (level : Int) (r : DocRun) :
    ∃ t, Meets files seen (renderTitled (settings.withStrict false) path level r)
      (renderTitled (settings.withStrict true) path level r) (.ok t) [placed path r] := by
  obtain ⟨t, ht⟩ := meets_renderRun files seen settings path (level + 1) r
  exact ⟨_, ht.bind_pure rfl rfl⟩

theorem meets_levelOf (settings : Settings) (page : Page) (d : Directive) :
    ∃ level, Meets files seen (levelOf (settings.withStrict false) page d)
      (levelOf (settings.withStrict true) page d) (.ok level) [] := by
  change ∃ level,
    Meets files seen (levelOf settings page d) (levelOf settings page d) (.ok level) []
  rw [levelOf]
  split
  · exact ⟨_, meets_pure _⟩
  · split
    · exact ⟨_, meets_pure _⟩
    · exact ⟨_, meets_report rfl _⟩

/-- Looking up the runs of a file meets none of them yet. -/
theorem meets_runsOf (path : Text) :
    Meets files seen (runsOf files path) (runsOf files path) (lookedUp (seen path)) [] := by
  intro p hp
  obtain ⟨hresult, hevents, hlook⟩ := exec_runsOf files path p
  rw [hp] at hresult
  have hexec : (runsOf files path).exec p =
      (lookedUp (seen path), ((runsOf files path).exec p).2) := by
    rw [← hresult]
  refine ⟨_, [], hexec, hlook, ?_, rfl, fun _ => hexec, fun _ _ => nofun, fun place e => ?_⟩
  · rw [hevents, List.append_nil]
  · -- only a path that no file can have stops a page here
    rw [lookedUp.eq_def]
    split
    · split <;> nofun
    · nofun

/-- A directive that does not stop the page meets the comments of the runs that it asks for. -/
theorem meets_renderFile (site : Site) (page : Page) (d : Directive)
    {file : Text} {runs : List DocRun} (hfile : seen (pathOf site.root file) = .ok runs) :
    ∃ t, Meets files seen (renderFile files (site.withStrict false) page d file)
      (renderFile files (site.withStrict true) page d file) (.ok t)
      ((d.chosen runs).map (placed (pathOf site.root file))) := by
  have hlooked := meets_runsOf files seen (pathOf site.root file)
  rw [hfile] at hlooked
  obtain ⟨level, hlevel⟩ := meets_levelOf files seen site.settings page d
  rw [renderFile, renderFile, Directive.chosen]
  cases hname : (d.value? "name").getD [] with
  | nil =>
    obtain ⟨parts, hparts⟩ := meets_mapM
      (meets_renderTitled files seen site.settings (pathOf site.root file) level) runs
    exact ⟨_, hlooked.bind (hlevel.bind (hparts.bind_pure rfl rfl))⟩
  | cons c name =>
    cases hfind : runs.find? (·.item = c :: name) with
    | none =>
      exact ⟨_, hlooked.bind (hlevel.bind (by simp only [hfind]; exact meets_pure _))⟩
    | some r =>
      obtain ⟨t, ht⟩ := meets_renderRun files seen site.settings
        (pathOf site.root file) level r
      refine ⟨t, hlooked.bind (hlevel.bind ?_)⟩
      simp only [hfind]
      exact ht

theorem meets_replaceDirective (site : Site) (page : Page)
    {d : Directive} (h : d.stops seen site.root = false) :
    ∃ t, Meets files seen (replaceDirective files (site.withStrict false) page d)
      (replaceDirective files (site.withStrict true) page d) (.ok t) (d.met seen site.root) := by
  rw [Directive.stops] at h
  rw [replaceDirective, replaceDirective, Directive.met]
  cases hname : (d.value? "file").getD [] with
  | nil => exact ⟨_, meets_pure _⟩
  | cons c file =>
    simp only [hname] at h ⊢
    cases hfile : seen (pathOf site.root (c :: file)) with
    | ok runs => exact meets_renderFile files seen site page d hfile
    | error e =>
      simp only [hfile, decide_eq_false_iff_not] at h
      have hlooked := meets_runsOf files seen (pathOf site.root (c :: file))
      rw [hfile, lookedUp, if_neg h] at hlooked
      exact ⟨_, hlooked.bind (meets_report rfl _)⟩

theorem meets_replaceDirective_of_stops (site : Site) (page : Page)
    {d : Directive} (h : d.stops seen site.root = true) :
    ∃ e, Meets files seen (replaceDirective files (site.withStrict false) page d)
      (replaceDirective files (site.withStrict true) page d) (.error e) [] := by
  rw [Directive.stops] at h
  rw [replaceDirective, replaceDirective]
  cases hname : (d.value? "file").getD [] with
  | nil =>
    rw [hname] at h
    cases h
  | cons c file =>
    simp only [hname] at h ⊢
    cases hfile : seen (pathOf site.root (c :: file)) with
    | ok runs =>
      rw [hfile] at h
      cases h
    | error e =>
      simp only [hfile, decide_eq_true_eq] at h
      have hlooked := meets_runsOf files seen (pathOf site.root (c :: file))
      rw [hfile, lookedUp, if_pos h] at hlooked
      exact ⟨_, hlooked.bind_error _ _⟩

/-- Whatever a page leads to, it meets the comments that can be told beforehand. -/
theorem meets_replaceAll (site : Site) (page : Page) :
    ∃ r, Meets files (look files site.cache) (replaceAll files (site.withStrict false) page)
      (replaceAll files (site.withStrict true) page) r
      (met (look files site.cache) site page) := by
  have hblocks := meets_assemble (Part.afterBlocks site.settings) (fun _ => rfl)
    (meets_replaceBlock files (look files site.cache) site.settings page)
    (blockParts site.settings page)
  obtain ⟨r, hdirectives⟩ := meets_assemble_of_stops
    (fun d hd => meets_replaceDirective files (look files site.cache) site page hd)
    (fun d hd => meets_replaceDirective_of_stops files (look files site.cache) site page hd)
    (cut Directive.find? 0 (afterBlocks site.settings page).fullLines)
  exact ⟨r, hblocks.bind hdirectives⟩

end Steps

/-! ## Whole pages -/

/-- The first mistake comes right after the part of a log before it. -/
theorem eq_takeWhile_append_of_head? {es : List Event} {place : Text} {e : DirectionError}
    (h : (es.filterMap Event.mistake?).head? = some (place, e)) :
    ∃ after, es = es.takeWhile (·.mistake?.isNone) ++ .unreadable place e :: after := by
  induction es with
  | nil => cases h
  | cons event es ih =>
    cases hevent : event.mistake? with
    | none =>
      rw [List.filterMap_cons_none hevent] at h
      obtain ⟨after, hafter⟩ := ih h
      refine ⟨after, ?_⟩
      rw [List.takeWhile_cons, hevent, Option.isNone_none, if_pos rfl, List.cons_append, ← hafter]
    | some mistake =>
      rw [List.filterMap_cons_some hevent] at h
      obtain rfl : mistake = (place, e) := Option.some.inj h
      obtain rfl : event = .unreadable place e := by
        cases event <;> cases hevent
        rfl
      exact ⟨es, rfl⟩

namespace MeetsFrom

variable {α : Type} {files : Files} {x y : Step α} {r : Except Failure α}
  {cs : List PlacedComment} {p q : Progress} {es : List Event}

/-- The strict step is stopped by a comment exactly if something is wrong with one of them, and then
by the first of those. -/
theorem stopped_iff (h : MeetsFrom files x y r cs p q es) (place : Text) (e : DirectionError) :
    (y.exec p).1 = .error (.unreadable place e) ↔ (mistakes cs).head? = some (place, e) := by
  rcases hcs : mistakes cs with _ | ⟨⟨place', e'⟩, more⟩
  · rw [h.strict hcs]
    exact iff_of_false (h.goesOn place e) nofun
  · obtain ⟨q', hstop, -⟩ := h.stopped place' e' (by rw [hcs]; rfl)
    rw [hstop, Except.error.injEq, Failure.unreadable.injEq, List.head?_cons, Option.some.injEq,
      Prod.mk.injEq]

/-- What the strict step reports before it is stopped is what the lenient one reports before the
mistake. -/
theorem events_of_stopped (h : MeetsFrom files x y r cs p q es) (hp : p.events = []) {place : Text}
    {e : DirectionError} (hfirst : (mistakes cs).head? = some (place, e)) :
    (∃ after, q.events = (y.exec p).2.events ++ .unreadable place e :: after) ∧
      (y.exec p).2.events.filterMap Event.mistake? = [] := by
  obtain ⟨q', hstop, hevents⟩ := h.stopped place e hfirst
  obtain ⟨after, hafter⟩ := eq_takeWhile_append_of_head? (by rw [h.reported]; exact hfirst)
  rw [hstop, h.events, hevents, hp, List.nil_append, List.nil_append, List.filterMap_eq_nil_iff]
  refine ⟨⟨after, hafter⟩, fun event hevent => ?_⟩
  exact Option.isNone_iff_eq_none.1
    (List.mem_takeWhile_imp (p := fun event : Event => event.mistake?.isNone) hevent)

/-- A strict step that is not stopped by a mistake does the same as the lenient one. -/
theorem exec_eq (h : MeetsFrom files x y r cs p q es)
    (hgo : ∀ place e, (y.exec p).1 ≠ .error (.unreadable place e)) : y.exec p = x.exec p := by
  rcases hcs : mistakes cs with _ | ⟨⟨place, e⟩, more⟩
  · rw [h.strict hcs, h.lenient]
  · exact absurd ((h.stopped_iff place e).2 (by rw [hcs]; rfl)) (hgo place e)

end MeetsFrom

/-- **Strict sites only stop.** A page is rendered by a lenient site and by a strict one with the
same settings otherwise and the same files kept:

* the lenient site reports what is wrong with the comments that the page meets, in order;
* the strict site is stopped by a comment exactly if something is wrong with one of them, and then
  by the first of those;
* then it has reported what the lenient site reported before that comment, and the message that it
  stops with is the next entry in the log of the lenient site;
* otherwise both lead to the same, with the same log, the same readings and the same files kept. -/
theorem render_strict (tree : FileTree) (site : Site) (page : Page) :
    let lenient := render tree (site.withStrict false) page
    let strict := render tree (site.withStrict true) page
    let wrong := mistakes (met (look tree.read site.cache) site page)
    lenient.events.filterMap Event.mistake? = wrong ∧
    (∀ place e, strict.result = .error (.unreadable place e) ↔ wrong.head? = some (place, e)) ∧
    (∀ place e, strict.result = .error (.unreadable place e) →
      ∃ after, lenient.events = strict.events ++ .unreadable place e :: after ∧
        strict.events.filterMap Event.mistake? = [] ∧
        (Event.unreadable place e).entry = ⟨.error, (Failure.unreadable place e).message⟩) ∧
    ((∀ place e, strict.result ≠ .error (.unreadable place e)) →
      strict.result = lenient.result ∧ strict.events = lenient.events ∧
      strict.readings = lenient.readings ∧ strict.site.cache = lenient.site.cache) := by
  intro lenient strict wrong
  obtain ⟨r, hmeets⟩ := meets_replaceAll tree.read site page
  obtain ⟨q, es, h⟩ := hmeets { cache := site.cache } rfl
  have hlenient : lenient = ⟨r, { site.withStrict false with cache := q.cache }, q.readings,
    q.events⟩ := renderWith_of_exec h.lenient
  refine ⟨?_, h.stopped_iff, fun place e he => ?_, fun hgo => ?_⟩
  · rw [hlenient, h.events]
    exact h.reported
  · obtain ⟨⟨after, hafter⟩, hbefore⟩ := h.events_of_stopped rfl ((h.stopped_iff place e).1 he)
    refine ⟨after, ?_, hbefore, ?_⟩
    · rw [hlenient]
      exact hafter
    · simp [Event.entry, Failure.message, Log.entry]
  · have hstrict : strict = ⟨r, { site.withStrict true with cache := q.cache }, q.readings,
      q.events⟩ := renderWith_of_exec ((h.exec_eq hgo).trans h.lenient)
    rw [hstrict, hlenient]
    exact ⟨rfl, rfl, rfl, rfl⟩

/-- A block of a strict site that cannot be read, below one that can. -/
theorem render_strict_block :
    (render {} { settings := { strict := true } } {
        markdown := "```doxygen\n@brief A\n```\n```doxygen\n@param[bogus] x\n```\n".toList
        path := "index.md".toList }).result =
      .error (.unreadable "index.md".toList { found := "bogus]".toList }) := by
  have hstrict := (render_strict {} {} {
        markdown := "```doxygen\n@brief A\n```\n```doxygen\n@param[bogus] x\n```\n".toList
        path := "index.md".toList }).2.1 "index.md".toList { found := "bogus]".toList }
  exact hstrict.2 (by decide +kernel)

end DoxygenMarkdown.Site

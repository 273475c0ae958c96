import DoxygenMarkdown.Site
import Mathlib.Data.List.Basic

/-!
# What the steps of a rendering do

Most of what is done with a page looks neither at the files that a site keeps nor at what came up
before. Such a step *tells* something (`Tells`): wherever it is taken, it leads to the same and
reports the same, and it reads no file.

Only the runs of a file are looked up (`runsOf`). Whatever relates two ways to do that therefore
relates two renderings of a page: **`agree_replaceAll`**, where `Agree` says that related progress
leads to the same and stays related.
-/

namespace DoxygenMarkdown.Site

variable {α β : Type}

/-- What a step leads to from some progress, and the progress then. -/
def Step.exec (x : Step α) (p : Progress) : Except Failure α × Progress := x.run.run p

namespace Step

@[simp] theorem exec_pure (a : α) (p : Progress) : Step.exec (pure a) p = (.ok a, p) := rfl

@[simp] theorem exec_throw (e : Failure) (p : Progress) :
    Step.exec (throw e : Step α) p = (.error e, p) := rfl

/-- A step that comes to an end is followed by the next one, from the progress it made. -/
theorem exec_bind_of_ok {x : Step α} {p q : Progress} {a : α} (h : x.exec p = (.ok a, q))
    (f : α → Step β) : Step.exec (x >>= f) p = (f a).exec q := by
  rw [Step.exec] at h
  rw [Step.exec, ExceptT.run_bind, StateT.run_bind, h]
  rfl

/-- A step that fails is the last one. -/
theorem exec_bind_of_error {x : Step α} {p q : Progress} {e : Failure}
    (h : x.exec p = (.error e, q)) (f : α → Step β) :
    Step.exec (x >>= f) p = (.error e, q) := by
  rw [Step.exec] at h
  rw [Step.exec, ExceptT.run_bind, StateT.run_bind, h]
  rfl

end Step

/-- What a page is rendered as is where the replacing of everything in it ends. -/
theorem renderWith_of_exec {files : Files} {site : Site} {page : Page}
    {result : Except Failure Text} {p : Progress}
    (h : (replaceAll files site page).exec { cache := site.cache } = (result, p)) :
    renderWith files site page =
      ⟨result, { site with cache := p.cache }, p.readings, p.events⟩ := by
  rw [Step.exec] at h
  rw [renderWith, h]

/-- Progress with more events. -/
def Progress.tell (p : Progress) (es : List Event) : Progress := { p with events := p.events ++ es }

@[simp] theorem Progress.tell_nil (p : Progress) : p.tell [] = p := by
  rw [Progress.tell, List.append_nil]

@[simp] theorem Progress.tell_tell (p : Progress) (es fs : List Event) :
    (p.tell es).tell fs = p.tell (es ++ fs) := by
  simp [Progress.tell]

/-! ## Steps that only tell something -/

/-- A step that leads to `r` and reports `es`, from any progress, and does nothing else. -/
def Tells (x : Step α) (r : Except Failure α) (es : List Event) : Prop :=
  ∀ p, x.exec p = (r, p.tell es)

theorem tells_pure (a : α) : Tells (pure a) (.ok a) [] := fun p => by simp

theorem tells_throw (e : Failure) : Tells (throw e : Step α) (.error e) [] := fun p => by simp

/-- To report events is to tell them and nothing else. -/
theorem tells_report (es : List Event) : Tells (report es) (.ok ()) es := fun _ => rfl

/-- Of two steps the reports stand in order. -/
theorem Tells.bind {x : Step α} {f : α → Step β} {a : α} {r : Except Failure β}
    {es fs : List Event} (hx : Tells x (.ok a) es) (hf : Tells (f a) r fs) :
    Tells (x >>= f) r (es ++ fs) := by
  intro p
  rw [Step.exec_bind_of_ok (hx p), hf, Progress.tell_tell]

/-- Behind a failure nothing more is told. -/
theorem Tells.bind_error {x : Step α} {e : Failure} {es : List Event} (hx : Tells x (.error e) es)
    (f : α → Step β) : Tells (x >>= f) (.error e) es := fun p =>
  Step.exec_bind_of_error (hx p) f

/-- What is only done with the value that a step leads to reports nothing. -/
theorem Tells.bind_pure {x : Step α} {f : α → Step β} {a : α} {b : β} {es : List Event}
    (hx : Tells x (.ok a) es) (hf : f a = pure b) : Tells (x >>= f) (.ok b) es := by
  have h : Tells (x >>= f) (.ok b) (es ++ []) := hx.bind (hf ▸ tells_pure b)
  rwa [List.append_nil] at h

/-- A step that only tells something, whatever that is. -/
def OnlyTells (x : Step α) : Prop := ∃ r es, Tells x r es

theorem onlyTells_pure (a : α) : OnlyTells (pure a) := ⟨_, _, tells_pure a⟩

/-- Steps that only tell something do so one after the other, also if the first one fails. -/
theorem OnlyTells.bind {x : Step α} {f : α → Step β} (hx : OnlyTells x)
    (hf : ∀ a, OnlyTells (f a)) : OnlyTells (x >>= f) := by
  obtain ⟨r, es, hx⟩ := hx
  cases r with
  | error e => exact ⟨.error e, es, hx.bind_error f⟩
  | ok a =>
    obtain ⟨r, fs, hf⟩ := hf a
    exact ⟨r, es ++ fs, hx.bind hf⟩

/-- The same for a list of them. -/
theorem OnlyTells.mapM {f : α → Step β} (hf : ∀ a, OnlyTells (f a)) (as : List α) :
    OnlyTells (as.mapM f) := by
  induction as with
  | nil => exact onlyTells_pure []
  | cons a as ih =>
    rw [List.mapM_cons]
    exact (hf a).bind fun b => ih.bind fun bs => onlyTells_pure (b :: bs)

/-! ## Rendering a comment -/

section Rendering

variable {settings : Settings} {comment : Text}

/-- A comment that can be read is written, and what was left out of it is reported. -/
theorem tells_renderAt_of_ok {level : Int} {rendering : Rendering}
    (h : renderComment (settings.levelFrom level) comment = .ok rendering) (place : Text) :
    Tells (renderAt settings place level comment) (.ok (some rendering.text))
      (rendering.notices.map .leftOut) := by
  rw [renderAt, h]
  exact (tells_report _).bind_pure rfl

/-- A comment that cannot be read is left out of the page with a report, unless the site is
strict. -/
theorem tells_renderAt_of_error (hstrict : settings.strict = false) {level : Int}
    {e : DirectionError} (h : renderComment (settings.levelFrom level) comment = .error e)
    (place : Text) :
    Tells (renderAt settings place level comment) (.ok none) [.unreadable place e] := by
  rw [renderAt, h]
  simp only [hstrict, Bool.false_eq_true, if_false]
  exact (tells_report _).bind_pure rfl

/-- A strict site is stopped by a comment that cannot be read. -/
theorem tells_renderAt_of_strict (hstrict : settings.strict = true) {level : Int}
    {e : DirectionError} (h : renderComment (settings.levelFrom level) comment = .error e)
    (place : Text) :
    Tells (renderAt settings place level comment) (.error (.unreadable place e)) [] := by
  rw [renderAt, h]
  simp only [hstrict, if_true]
  exact tells_throw _

/-- To render a comment takes no file and no cache. -/
theorem onlyTells_renderAt (settings : Settings) (place : Text) (level : Int) (comment : Text) :
    OnlyTells (renderAt settings place level comment) := by
  cases h : renderComment (settings.levelFrom level) comment with
  | ok rendering => exact ⟨_, _, tells_renderAt_of_ok h place⟩
  | error e =>
    cases hstrict : settings.strict with
    | false => exact ⟨_, _, tells_renderAt_of_error hstrict h place⟩
    | true => exact ⟨_, _, tells_renderAt_of_strict hstrict h place⟩

/-- A fenced block brings its comment with it. -/
theorem onlyTells_replaceBlock (settings : Settings) (page : Page) (b : FencedBlock) :
    OnlyTells (replaceBlock settings page b) := by
  refine (onlyTells_renderAt settings page.name 0 b.comment).bind fun t => ?_
  cases t <;> exact onlyTells_pure _

/-- Once the runs of a file are known, rendering one of them takes no file either. -/
theorem onlyTells_renderRun (settings : Settings) (path : Text) (level : Int)
    (r : Bindings.DocRun) : OnlyTells (renderRun settings path level r) := by
  refine (onlyTells_renderAt settings _ level r.comment).bind fun t => ?_
  cases t <;> exact onlyTells_pure _

theorem onlyTells_renderTitled (settings : Settings) (path : Text) (level : Int)
    (r : Bindings.DocRun) : OnlyTells (renderTitled settings path level r) :=
  (onlyTells_renderRun settings path (level + 1) r).bind fun _ => onlyTells_pure _

/-- A level that is no number is reported, and the level of the site is used. -/
theorem onlyTells_levelOf (settings : Settings) (page : Page) (d : Directive) :
    OnlyTells (levelOf settings page d) := by
  rw [levelOf]
  split
  · exact onlyTells_pure _
  · split
    · exact onlyTells_pure _
    · exact OnlyTells.bind ⟨_, _, tells_report _⟩ fun _ => onlyTells_pure _

end Rendering

/-! ## Relating two renderings -/

/-- Two steps that lead to the same from related progress, and leave it related. -/
def Agree (R : Progress → Progress → Prop) (x y : Step α) : Prop :=
  ∀ p q, R p q → (x.exec p).1 = (y.exec q).1 ∧ R (x.exec p).2 (y.exec q).2

/-- A relation that telling the same on both sides does not break. -/
def IgnoresEvents (R : Progress → Progress → Prop) : Prop :=
  ∀ p q es, R p q → R (p.tell es) (q.tell es)

section Agree

variable {R : Progress → Progress → Prop}

/-- Steps that agree may be followed by steps that agree. -/
theorem Agree.bind {x y : Step α} {f g : α → Step β} (hxy : Agree R x y)
    (hfg : ∀ a, Agree R (f a) (g a)) : Agree R (x >>= f) (y >>= g) := by
  intro p q hpq
  obtain ⟨hresult, hafter⟩ := hxy p q hpq
  -- the first steps lead to the same, so both are stopped there or both go on
  rcases hx : x.exec p with ⟨e | a, p'⟩ <;> rcases hy : y.exec q with ⟨e' | a', q'⟩ <;>
    rw [hx, hy] at hresult hafter <;> cases hresult
  · rw [Step.exec_bind_of_error hx, Step.exec_bind_of_error hy]
    exact ⟨rfl, hafter⟩
  · rw [Step.exec_bind_of_ok hx, Step.exec_bind_of_ok hy]
    exact hfg a p' q' hafter

/-- A step that only tells something agrees with itself, whatever the relation, if events do not
count for it. -/
theorem OnlyTells.agree {x : Step α} (hx : OnlyTells x) (hR : IgnoresEvents R) : Agree R x x := by
  obtain ⟨r, es, hx⟩ := hx
  intro p q hpq
  rw [hx p, hx q]
  exact ⟨rfl, hR p q es hpq⟩

/-- Parts of a page that agree are put together to pages that agree. -/
theorem agree_assemble {f g : β → Step Text} (hfg : ∀ b, Agree R (f b) (g b))
    (hR : IgnoresEvents R) (parts : List (Part β)) :
    Agree R (assemble f parts) (assemble g parts) := by
  induction parts with
  | nil => exact (onlyTells_pure []).agree hR
  | cons part parts ih =>
    cases part with
    | line l => exact ih.bind fun t => (onlyTells_pure (l ++ t)).agree hR
    | block b => exact (hfg b).bind fun t => ih.bind fun u => (onlyTells_pure (t ++ u)).agree hR

variable {files files' : Files} {site site' : Site}

/-- Two ways to look up runs that agree render the same of a file. -/
theorem agree_renderFile (hR : IgnoresEvents R)
    (hruns : ∀ path, Agree R (runsOf files path) (runsOf files' path))
    (hsettings : site.settings = site'.settings) (hroot : site.root = site'.root) (page : Page)
    (d : Directive) (file : Text) :
    Agree R (renderFile files site page d file) (renderFile files' site' page d file) := by
  rw [renderFile, renderFile, ← hsettings, ← hroot]
  refine (hruns _).bind fun found => OnlyTells.agree ?_ hR
  cases found with
  | error e => exact OnlyTells.bind ⟨_, _, tells_report _⟩ fun _ => onlyTells_pure _
  | ok runs =>
    refine (onlyTells_levelOf site.settings page d).bind fun level => ?_
    split
    · exact (OnlyTells.mapM (onlyTells_renderTitled site.settings _ level) runs).bind
        fun _ => onlyTells_pure _
    · split
      · exact onlyTells_renderRun site.settings _ level _
      · exact onlyTells_pure _

theorem agree_replaceDirective (hR : IgnoresEvents R)
    (hruns : ∀ path, Agree R (runsOf files path) (runsOf files' path))
    (hsettings : site.settings = site'.settings) (hroot : site.root = site'.root) (page : Page)
    (d : Directive) :
    Agree R (replaceDirective files site page d) (replaceDirective files' site' page d) := by
  rw [replaceDirective, replaceDirective]
  split
  · exact (onlyTells_pure _).agree hR
  · exact agree_renderFile hR hruns hsettings hroot page d _

/-- **Pages differ in nothing but the runs of files.** Two sites with the same settings and the same
folder render a page in the same way if they agree on the runs of every file. -/
theorem agree_replaceAll (hR : IgnoresEvents R)
    (hruns : ∀ path, Agree R (runsOf files path) (runsOf files' path))
    (hsettings : site.settings = site'.settings) (hroot : site.root = site'.root) (page : Page) :
    Agree R (replaceAll files site page) (replaceAll files' site' page) := by
  have hblocks : Agree R (replaceBlocks site.settings page page.markdown)
      (replaceBlocks site'.settings page page.markdown) := by
    rw [← hsettings]
    exact agree_assemble (fun b => (onlyTells_replaceBlock site.settings page b).agree hR) hR _
  exact hblocks.bind fun t =>
    agree_assemble (agree_replaceDirective hR hruns hsettings hroot page) hR _

end Agree

end DoxygenMarkdown.Site

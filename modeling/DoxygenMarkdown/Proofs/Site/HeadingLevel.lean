import DoxygenMarkdown.Proofs.Site.Strict

/-!
# The level that a directive asks for

The value of `heading_level` is a number that a directive sets for itself. What the directive is
replaced by then depends on that number, and not on the level of the site, with one exception:
level zero stands for the level of the site. A run that is named is rendered at the number itself,
and runs without a name at one more, below titles at the number. So the exception is zero for the
one, and minus one for the others: **`replaceDirective_headingLevel`**.

Apart from looking up the runs, the text does not depend on what happened before. The steps that
make it yield the same from any progress (`Yields`), and they are followed one by one.
-/

namespace DoxygenMarkdown.Site

open Bindings (DocRun)

/-! ## Steps that yield the same from any progress -/

section Yields

variable {α β : Type}

/-- A step that leads to `r` from any progress, whatever it reports. -/
def Yields (x : Step α) (r : Except Failure α) : Prop := ∀ p, (x.exec p).1 = r

theorem Tells.yields {x : Step α} {r : Except Failure α} {es : List Event} (h : Tells x r es) :
    Yields x r := fun p => congrArg Prod.fst (h p)

theorem yields_pure (a : α) : Yields (pure a) (.ok a) := fun _ => rfl

theorem exec_bind_fst {x : Step α} {p : Progress} {r : Except Failure α}
    (hx : (x.exec p).1 = r) {f : α → Step β} {g : α → Except Failure β}
    (hf : ∀ a, r = .ok a → Yields (f a) (g a)) : (Step.exec (x >>= f) p).1 = r >>= g := by
  rcases hstep : x.exec p with ⟨e | a, q⟩ <;> rw [hstep] at hx <;> subst hx
  · rw [Step.exec_bind_of_error hstep]
    rfl
  · rw [Step.exec_bind_of_ok hstep]
    exact hf a rfl q

/-- Of two steps the second one yields the result, or the failure of the first one does. -/
theorem Yields.bind {x : Step α} {r : Except Failure α} (hx : Yields x r) {f : α → Step β}
    {g : α → Except Failure β} (hf : ∀ a, Yields (f a) (g a)) : Yields (x >>= f) (r >>= g) :=
  fun p => exec_bind_fst (hx p) fun a _ => hf a

theorem Yields.mapM {f : α → Step β} {g : α → Except Failure β} (hf : ∀ a, Yields (f a) (g a))
    (as : List α) : Yields (as.mapM f) (as.mapM g) := by
  induction as with
  | nil => exact yields_pure []
  | cons a as ih =>
    rw [List.mapM_cons, List.mapM_cons]
    exact (hf a).bind fun b => ih.bind fun bs => yields_pure (b :: bs)

end Yields

/-! ## Runs -/

/-- A run of a file, rendered at a level. One that cannot be read stops a strict site, and leaves a
note in the pages of others. -/
def shownAt (strict : Bool) (path : Text) (level : Int) (r : DocRun) : Except Failure Text :=
  match renderComment level r.comment with
  | .ok rendering => .ok rendering.text
  | .error e =>
    if strict then .error (.unreadable (placed path r).place e)
    else .ok (note ("cannot render ".toList ++ (placed path r).place))

/-- The title of a run, with as many number signs as the level says, and none below one. -/
def titleAt (level : Int) (r : DocRun) : Text :=
  if r.item = [] then []
  else List.replicate level.toNat '#' ++ " `".toList ++ r.item ++ "`\n\n".toList

/-- A run of a file, rendered at a level, with a title at another one. -/
def shownBelow (strict : Bool) (path : Text) (titleLevel level : Int) (r : DocRun) :
    Except Failure Text :=
  (shownAt strict path level r).map (titleAt titleLevel r ++ ·)

/-- Runs of a file with their titles, one after another. -/
def shownRuns (strict : Bool) (path : Text) (titleLevel level : Int) (rs : List DocRun) :
    Except Failure Text :=
  (rs.mapM (shownBelow strict path titleLevel level)).map (List.intercalate "\n---\n\n".toList)

/-- The title of a run is its heading at the level of the directive. -/
theorem titleOf_eq (level : Int) (r : DocRun) : titleOf level r = titleAt level r := by
  rw [titleOf, titleAt, Markdown.headingLine, Markdown.codeSpan]
  simp [List.isEmpty_iff]

section Runs

variable (settings : Settings) (path : Text) (level : Int)

/-- A run is shown at the level counted from that of the directive. -/
theorem yields_renderRun (r : DocRun) :
    Yields (renderRun settings path level r)
      (shownAt settings.strict path (settings.levelFrom level) r) := by
  rw [renderRun, shownAt]
  cases h : renderComment (settings.levelFrom level) r.comment with
  | ok rendering =>
    exact Tells.yields (Tells.bind_pure (tells_renderAt_of_ok h (placed path r).place) rfl)
  | error e =>
    cases hstrict : settings.strict with
    | false =>
      exact Tells.yields
        (Tells.bind_pure (tells_renderAt_of_error hstrict h (placed path r).place) rfl)
    | true =>
      exact Tells.yields
        (Tells.bind_error (tells_renderAt_of_strict hstrict h (placed path r).place) _)

/-- Below a title, a run is shown one level deeper. -/
theorem yields_renderTitled (r : DocRun) :
    Yields (renderTitled settings path level r)
      (shownBelow settings.strict path level (settings.levelFrom (level + 1)) r) := by
  rw [shownBelow, ← titleOf_eq]
  exact (yields_renderRun settings path (level + 1) r).bind fun t =>
    yields_pure (titleOf level r ++ t)

end Runs

/-! ## Directives -/

section Directives

variable {files : Files} {site : Site} {page : Page} {d : Directive} {p : Progress}
  {file t : Text} {level : Int} {runs : List DocRun}

/-- A level that is a number is taken as it is, zero included. -/
theorem yields_levelOf (ht : d.value? "heading_level" = some t)
    (hlevel : Text.readInt? t = some level) :
    Yields (levelOf site.settings page d) (.ok level) := by
  rw [levelOf, ht]
  simp only [hlevel]
  exact yields_pure level

/-- What a directive is replaced by when it asks for a level and the runs of its file are found. -/
def Directive.shown (d : Directive) (settings : Settings) (path file : Text) (level : Int)
    (rs : List DocRun) : Except Failure Text :=
  match (d.value? "name").getD [] with
  | [] => shownRuns settings.strict path level (settings.levelFrom (level + 1)) rs
  | c :: name =>
    match rs.find? (·.item = c :: name) with
    | some r => shownAt settings.strict path (settings.levelFrom level) r
    | none => .ok (note ("symbol '".toList ++ c :: name ++ "' not found in ".toList ++ file))

/-- A directive with a file and a level shows the runs of that file. -/
theorem exec_replaceDirective (hfile : d.value? "file" = some file) (hne : file ≠ [])
    (ht : d.value? "heading_level" = some t) (hlevel : Text.readInt? t = some level)
    (hlook : look files p.cache (pathOf site.root file) = .ok runs) :
    ((replaceDirective files site page d).exec p).1 =
      d.shown site.settings (pathOf site.root file) file level runs := by
  obtain ⟨c, file, rfl⟩ := List.exists_cons_of_ne_nil hne
  have hruns : ((runsOf files (pathOf site.root (c :: file))).exec p).1 = .ok (.ok runs) := by
    rw [(exec_runsOf files _ p).1, hlook]
    rfl
  rw [replaceDirective, hfile]
  refine exec_bind_fst (g := fun _ => d.shown site.settings _ _ level runs) hruns fun found h => ?_
  obtain rfl := Except.ok.inj h
  refine (yields_levelOf ht hlevel).bind (g := fun level =>
    d.shown site.settings (pathOf site.root (c :: file)) (c :: file) level runs) fun level => ?_
  rw [Directive.shown]
  cases (d.value? "name").getD [] with
  | nil =>
    exact (Yields.mapM (yields_renderTitled site.settings _ level) runs).bind
      fun parts => yields_pure (List.intercalate rule parts)
  | cons e name =>
    dsimp only
    cases runs.find? (·.item = e :: name) with
    | some r => exact yields_renderRun site.settings _ level r
    | none => exact yields_pure _

/-- **A directive sets its own level.** If its value is a number, and the runs of its file are
found, then the run that it names is rendered at that level, and runs without a name are rendered at
the next one, below titles at that level. Only a run at level zero is rendered at the level of the
site. -/
theorem replaceDirective_headingLevel (files : Files) (site : Site) (page : Page) (p : Progress)
    (hfile : d.value? "file" = some file) (hne : file ≠ [])
    (ht : d.value? "heading_level" = some t) (hlevel : Text.readInt? t = some level)
    (hlook : look files p.cache (pathOf site.root file) = .ok runs) :
    let path := pathOf site.root file
    let strict := site.settings.strict
    let siteLevel := site.settings.headingLevel.toInt
    let result := ((replaceDirective files site page d).exec p).1
    (∀ name r, d.value? "name" = some name → name ≠ [] →
      runs.find? (·.item = name) = some r →
      (level ≠ 0 → result = shownAt strict path level r) ∧
        (level = 0 → result = shownAt strict path siteLevel r)) ∧
    ((d.value? "name").getD [] = [] →
      (level ≠ -1 → result = shownRuns strict path level (level + 1) runs) ∧
        (level = -1 → result = shownRuns strict path level siteLevel runs)) := by
  intro path strict siteLevel result
  have hresult : result = d.shown site.settings path file level runs :=
    exec_replaceDirective hfile hne ht hlevel hlook
  constructor
  · intro name r hname hnameNe hfind
    obtain ⟨c, name, rfl⟩ := List.exists_cons_of_ne_nil hnameNe
    rw [hresult, Directive.shown, hname, Option.getD_some]
    simp only [hfind]
    refine ⟨fun h => ?_, fun h => ?_⟩
    · rw [Settings.levelFrom, if_neg h]
    · rw [Settings.levelFrom, if_pos h]
  · intro hname
    rw [hresult, Directive.shown, hname]
    refine ⟨fun h => ?_, fun h => ?_⟩
    · rw [Settings.levelFrom, if_neg (by omega)]
    · rw [Settings.levelFrom, if_pos (by omega)]

end Directives

/-- A file with two functions, one of them with a comment that cannot be read. -/
def twoFunctions : Bytes :=
  Utf8.encode "#[doc = \"@param x A\"]\nfn f();\n#[doc = \"@param[x B\"]\nfn g();\n".toList

/-- The files of a folder with these functions. -/
def twoFunctionsFiles : Files := FileTree.read { files := [(["a.rs".toList], twoFunctions)] }

/-- All levels below one look the same. -/
theorem replaceDirective_headingLevel_below :
    let site : Site := { settings := { headingLevel := .number 5 } }
    let page : Page := { markdown := [], path := "index.md".toList }
    let d : Directive := ⟨[⟨"file".toList, " a.rs".toList⟩, ⟨"heading_level".toList, " -2".toList⟩]⟩
    let named : Directive := ⟨d.options ++ [⟨"name".toList, " f".toList⟩]⟩
    ((replaceDirective twoFunctionsFiles site page named).exec { cache := [] }).1.toOption =
        some " Arguments\n\n* `x` - A\n\n".toList ∧
      ((replaceDirective twoFunctionsFiles site page d).exec { cache := [] }).1.toOption =
        some (" `f`\n\n Arguments\n\n* `x` - A\n\n\n---\n\n `g`\n\n" ++
          "<!-- doxyrs: cannot render a.rs:3 -->\n").toList := by
  intro site page d named
  have hfile : "a.rs".toList ≠ [] := by decide
  have hlevel : Text.readInt? "-2".toList = some (-2) := by decide
  have hlook : look twoFunctionsFiles [] "a.rs".toList = .ok (runsIn twoFunctions) := rfl
  obtain ⟨hnamed, -⟩ := replaceDirective_headingLevel twoFunctionsFiles site page { cache := [] }
    (d := named) rfl hfile rfl hlevel hlook
  obtain ⟨-, hall⟩ := replaceDirective_headingLevel twoFunctionsFiles site page { cache := [] }
    (d := d) rfl hfile rfl hlevel hlook
  constructor
  · rw [(hnamed "f".toList _ rfl (by decide) rfl).1 (by decide)]
    decide +kernel
  · rw [(hall rfl).1 (by decide)]
    decide +kernel

/-- Level zero is the level of the site: the same directive is replaced by headings of level two on
one site, and of level three on another. So it is where there are no names, at level minus one. -/
theorem replaceDirective_levelOfSite :
    let site (level : Int) : Site := { settings := { headingLevel := .number level } }
    let page : Page := { markdown := [], path := "index.md".toList }
    let zero : Directive := ⟨[⟨"file".toList, " a.rs".toList⟩, ⟨"name".toList, " f".toList⟩,
      ⟨"heading_level".toList, " 0".toList⟩]⟩
    let minusOne : Directive :=
      ⟨[⟨"file".toList, " a.rs".toList⟩, ⟨"heading_level".toList, " -1".toList⟩]⟩
    let shown (level : Int) (d : Directive) : Option Text :=
      ((replaceDirective twoFunctionsFiles (site level) page d).exec { cache := [] }).1.toOption
    (renderComment 0 "@param x A".toList).toOption.map (·.text) =
        some " Arguments\n\n* `x` - A\n\n".toList ∧
      shown 2 zero = some "## Arguments\n\n* `x` - A\n\n".toList ∧
      shown 3 zero = some "### Arguments\n\n* `x` - A\n\n".toList ∧
      shown 2 minusOne ≠ shown 3 minusOne := by
  decide +kernel

end DoxygenMarkdown.Site

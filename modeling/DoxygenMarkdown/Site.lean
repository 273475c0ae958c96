import DoxygenMarkdown.Batch.File
import DoxygenMarkdown.FileTree
import DoxygenMarkdown.Site.Directive
import DoxygenMarkdown.Site.FencedBlock
import DoxygenMarkdown.Site.Settings
import DoxygenMarkdown.Text.DecimalDigit

/-!
# Documentation in the pages of a site

Two things in a page are replaced by documentation: fenced blocks, by the comment in them, and
directives, by the comments in a file of bindings. First all blocks are, then all directives.

* A comment that cannot be read is logged, and a block with such a comment stays as it is. In a
  strict site it stops the page instead.
* The runs of a file are kept (`Site.cache`) from the first time that the file is read until the
  site is configured again. A file that cannot be read is not kept, so it is looked for again.

What is logged, read and kept is not lost when a page is stopped: it is part of the state that a
page is rendered with (`Progress`), whatever comes out.
-/

namespace DoxygenMarkdown

/-- The files of bindings that were read, by their paths, with their runs. -/
abbrev Site.Cache := List (Text × List Bindings.DocRun)

/-- A site: its settings, the folder of its bindings, and the files read so far. -/
structure Site where
  settings : Site.Settings := {}
  root : Text := []
  cache : Site.Cache := []
deriving DecidableEq, Repr

namespace Site

/-- A page. It is known by an address, which may be missing, or null, and by a path. -/
structure Page where
  markdown : Text
  address : Option (Option Text) := none
  path : Text
deriving DecidableEq, Repr

/-- The name of a page in messages about its comments. -/
def Page.name (page : Page) : Text :=
  match page.address with
  | some (some (c :: address)) => c :: address
  | _ => page.path

/-- The name of a page in messages about its directives. -/
def Page.addressText (page : Page) : Text :=
  match page.address with
  | none => []
  | some none => "None".toList
  | some (some address) => address

/-- Something that came up while a site was configured or a page rendered. -/
inductive Event where
  | configured (root : Text)
  | leftOut (n : Notice)
  | unreadable (place : Text) (e : DirectionError)
  | unreachable (path : Text) (e : FileError)
  | badLevel (text address : Text)
deriving DecidableEq, Repr

/-- The entry of the log for an event. -/
def Event.entry : Event → Log.Entry
  | configured root => Log.entry .debug ("bindgen root ".toList ++ root)
  | leftOut n => n.entry
  | unreadable place e => Log.entry .error (place ++ ": ".toList ++ e.message)
  | unreachable path e =>
    Log.entry .error ("cannot read ".toList ++ path ++ ": ".toList ++ e.message)
  | badLevel text address =>
    Log.entry .warning
      ("bad :heading_level: ".toList ++ Text.quoted text ++ " on page ".toList ++ address)

/-- What stops a page. -/
inductive Failure where
  /-- A comment in a strict site that cannot be read. -/
  | unreadable (place : Text) (e : DirectionError)
  /-- A path that no file can have. -/
  | badPath (e : FileError)
deriving DecidableEq, Repr

/-- The failure in words. -/
def Failure.message : Failure → Text
  | unreadable place e => reporter ++ place ++ ": ".toList ++ e.message
  | badPath e => e.message

/-- Configure a site. The file that configures it, if there is one, tells where its folders
start. -/
def configure (tree : FileTree) (settings : Settings) (file : Option Text) : Site × List Event :=
  let folder := match file with
    | some (c :: file) =>
      Path.directory (Path.normalize (Path.join tree.here.path (c :: file)))
    | _ => []
  let root := settings.bindingsRoot
  let root := if root.isEmpty || Path.isAbsolute root then root else Path.join folder root
  let root := if root.isEmpty then folder else root
  (⟨settings, root, []⟩, [.configured root])

/-! ## Rendering with a state -/

/-- The files that a page may ask for: what reading a path gives. -/
abbrev Files := Text → Except FileError Bytes

/-- A file that was read, or could not be. -/
structure Reading where
  path : Text
  content : Except FileError Bytes
deriving Repr

/-- What a page adds to while it is rendered: the files that the site keeps, the readings of files
and the events, both in order. -/
structure Progress where
  cache : Cache
  readings : List Reading := []
  events : List Event := []
deriving Repr

/-- A step of the rendering of a page, which may be stopped. -/
abbrev Step (α : Type) := ExceptT Failure (StateM Progress) α

/-- Report events. -/
def report (events : List Event) : Step Unit :=
  modify fun p => { p with events := p.events ++ events }

/-- The level of headings for a comment. Level zero means the level of the site. -/
def Settings.levelFrom (settings : Settings) (level : Int) : Int :=
  if level = 0 then settings.headingLevel.toInt else level

/-- Render a comment that stands at some place. There is no text if the comment cannot be read. -/
def renderAt (settings : Settings) (place : Text) (level : Int) (comment : Text) :
    Step (Option Text) :=
  match renderComment (settings.levelFrom level) comment with
  | .ok rendering => do
    report (rendering.notices.map .leftOut)
    pure (some rendering.text)
  | .error e =>
    if settings.strict then throw (.unreadable place e)
    else do
      report [.unreadable place e]
      pure none

/-! ## Fenced blocks -/

/-- What a fenced block is replaced by. -/
def replaceBlock (settings : Settings) (page : Page) (b : FencedBlock) : Step Text := do
  match ← renderAt settings page.name 0 b.comment with
  | some t => pure (FencedBlock.indentLines b.indent t.trimEndBreaks ++ b.closing.lineBreak)
  | none => pure (b.source ++ b.closing.lineBreak)

/-! ## Directives -/

/-- The path of a file that a directive names. -/
def pathOf (root file : Text) : Text :=
  if Path.isAbsolute file then file else Path.normalize (Path.join root file)

/-- Read a file. -/
def readFile (files : Files) (path : Text) : Step (Except FileError Bytes) := do
  modify fun p => { p with readings := p.readings ++ [⟨path, files path⟩] }
  pure (files path)

/-- The runs of a file, which are kept from then on. -/
def runsOf (files : Files) (path : Text) : Step (Except FileError (List Bindings.DocRun)) := do
  match (← get).cache.lookup path with
  | some runs => pure (.ok runs)
  | none =>
    match ← readFile files path with
    | .error e => if e.cause = .nullCharacter then throw (.badPath e) else pure (.error e)
    | .ok bytes =>
      let runs := Bindings.runs (Batch.textOf bytes)
      modify fun p => { p with cache := (path, runs) :: p.cache }
      pure (.ok runs)

/-- A note in a page that only those see who look at its source. -/
def note (t : Text) : Text := "<!-- ".toList ++ reporter ++ t ++ " -->\n".toList

/-- Render a run of a file. -/
def renderRun (settings : Settings) (path : Text) (level : Int) (r : Bindings.DocRun) :
    Step Text := do
  let place := path ++ ':' :: (toString r.line).toList
  match ← renderAt settings place level r.comment with
  | some t => pure t
  | none => pure (note ("cannot render ".toList ++ place))

/-- The title of a run, if its item has a name. -/
def titleOf (level : Int) (r : Bindings.DocRun) : Text :=
  if r.item.isEmpty then []
  else Markdown.headingLine level (Markdown.codeSpan r.item) ++ "\n\n".toList

/-- Render a run of a file under its title. -/
def renderTitled (settings : Settings) (path : Text) (level : Int) (r : Bindings.DocRun) :
    Step Text := do
  pure (titleOf level r ++ (← renderRun settings path (level + 1) r))

/-- The level of headings that a directive asks for. One that is no number is reported. -/
def levelOf (settings : Settings) (page : Page) (d : Directive) : Step Int :=
  match d.value? "heading_level" with
  | none => pure settings.headingLevel.toInt
  | some t =>
    match Text.readInt? t with
    | some n => pure n
    | none => do
      report [.badLevel t page.addressText]
      pure settings.headingLevel.toInt

/-- What stands between the runs of a file. -/
def rule : Text := "\n---\n\n".toList

/-- What a directive that names a file is replaced by: the run of the item that it names, or all
runs. -/
def renderFile (files : Files) (site : Site) (page : Page) (d : Directive) (file : Text) :
    Step Text := do
  let path := pathOf site.root file
  match ← runsOf files path with
  | .error e =>
    report [.unreachable path e]
    pure (note ("file not found: ".toList ++ file))
  | .ok runs =>
    let level ← levelOf site.settings page d
    match (d.value? "name").getD [] with
    | [] => do
      let parts ← runs.mapM (renderTitled site.settings path level)
      pure (List.intercalate rule parts)
    | c :: name =>
      match runs.find? (·.item = c :: name) with
      | some r => renderRun site.settings path level r
      | none =>
        pure (note
          ("symbol '".toList ++ c :: name ++ "' not found in ".toList ++ file))

/-- What a directive is replaced by. -/
def replaceDirective (files : Files) (site : Site) (page : Page) (d : Directive) : Step Text :=
  match (d.value? "file").getD [] with
  | [] => pure (note "missing :file: for doxygen:bindgen".toList)
  | c :: file => renderFile files site page d (c :: file)

/-! ## Pages -/

/-- Write the parts of a page one after the other, with each block replaced. -/
def assemble {β : Type} (replace : β → Step Text) : List (Part β) → Step Text
  | [] => pure []
  | .line l :: parts => do pure (l ++ (← assemble replace parts))
  | .block b :: parts => do
    let t ← replace b
    pure (t ++ (← assemble replace parts))

/-- Replace the fenced blocks of a page. -/
def replaceBlocks (settings : Settings) (page : Page) (t : Text) : Step Text :=
  assemble (replaceBlock settings page) (cut (FencedBlock.find? settings.fence) 0 t.fullLines)

/-- Replace the directives of a page. -/
def replaceDirectives (files : Files) (site : Site) (page : Page) (t : Text) : Step Text :=
  assemble (replaceDirective files site page) (cut Directive.find? 0 t.fullLines)

/-- What the rendering of a page led to. -/
structure Rendered where
  result : Except Failure Text
  /-- The site, with the files that it keeps now. -/
  site : Site
  readings : List Reading
  events : List Event

/-- Replace all that is to be replaced in a page. -/
def replaceAll (files : Files) (site : Site) (page : Page) : Step Text := do
  replaceDirectives files site page (← replaceBlocks site.settings page page.markdown)

/-- Render a page that sees some files. -/
def renderWith (files : Files) (site : Site) (page : Page) : Rendered :=
  let (result, progress) := (replaceAll files site page).run.run { cache := site.cache }
  ⟨result, { site with cache := progress.cache }, progress.readings, progress.events⟩

/-- Render a page that sees the files of a tree. -/
def render (tree : FileTree) (site : Site) (page : Page) : Rendered :=
  renderWith tree.read site page

end Site

end DoxygenMarkdown

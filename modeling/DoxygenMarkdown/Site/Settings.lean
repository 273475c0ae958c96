import DoxygenMarkdown.Text.Blank

/-!
# Settings of a site

A site sets a few options by name. Their values come from outside and may be of any kind, so they
are checked before anything is done with them (`Settings.read`): a value of the wrong kind is
refused by the name of its option. An option that is missing, or null, keeps its default, and an
option that is unknown does not matter.
-/

namespace DoxygenMarkdown.Site

/-- The value of an option, as it comes from outside. -/
inductive Value where
  | null
  | flag (on : Bool)
  | number (n : Int)
  | text (t : Text)
  | other
deriving DecidableEq, Repr

/-- The level of headings. A flag counts as zero or one. -/
inductive HeadingLevel where
  | number (n : Int)
  | flag (on : Bool)
deriving DecidableEq, Repr

/-- The number that a level counts as. -/
def HeadingLevel.toInt : HeadingLevel → Int
  | number n => n
  | flag true => 1
  | flag false => 0

/-- The options of a site. -/
structure Settings where
  /-- What follows the fence of a block that holds a comment. -/
  fence : Text := "doxygen".toList
  headingLevel : HeadingLevel := .number 1
  /-- Whether a comment that cannot be read stops the building of the site. -/
  strict : Bool := false
  /-- The folder that the paths of files of bindings start from. -/
  bindingsRoot : Text := []
deriving DecidableEq, Repr

namespace Settings

/-- The names of the options. -/
def fenceName : String := "fence"

/-- The name of the option for the level of headings. -/
def headingLevelName : String := "heading_level"

/-- The name of the option for strictness. -/
def strictName : String := "strict"

/-- The name of the option for the folder of bindings. -/
def bindingsRootName : String := "bindgen_root"

/-- The value of an option, which is null if it is missing. -/
def valueOf (options : List (String × Value)) (name : String) : Value :=
  (options.lookup name).getD .null

/-- Read a text. -/
def readText? (default : Text) : Value → Option Text
  | .null => some default
  | .text t => some t
  | _ => none

/-- Read a level of headings. -/
def readLevel? (default : HeadingLevel) : Value → Option HeadingLevel
  | .null => some default
  | .number n => some (.number n)
  | .flag on => some (.flag on)
  | _ => none

/-- Read a flag. -/
def readFlag? (default : Bool) : Value → Option Bool
  | .null => some default
  | .flag on => some on
  | _ => none

/-- Read the options of a site, or name those whose values are of the wrong kind. -/
def read (options : List (String × Value)) : Except (List String) Settings :=
  let default : Settings := {}
  let fence := readText? default.fence (valueOf options fenceName)
  let headingLevel := readLevel? default.headingLevel (valueOf options headingLevelName)
  let strict := readFlag? default.strict (valueOf options strictName)
  let bindingsRoot := readText? default.bindingsRoot (valueOf options bindingsRootName)
  match fence, headingLevel, strict, bindingsRoot with
  | some fence, some headingLevel, some strict, some bindingsRoot =>
    .ok ⟨fence, headingLevel, strict, bindingsRoot⟩
  | _, _, _, _ =>
    .error ((if fence.isNone then [fenceName] else []) ++
      (if headingLevel.isNone then [headingLevelName] else []) ++
      (if strict.isNone then [strictName] else []) ++
      (if bindingsRoot.isNone then [bindingsRootName] else []))

end Settings

end DoxygenMarkdown.Site

import DoxygenMarkdown.Text.Blank

/-!
# What is reported

Reading goes on where it can. What it leaves out, and what it cannot read, is reported in a log: a
list of entries, in the order in which they came up. Each part of the library has its own causes of
entries, as an inductive type, and says in one place how each is worded.
-/

namespace DoxygenMarkdown

/-- How much an entry matters. -/
inductive Log.Level where
  | debug
  | warning
  | error
deriving DecidableEq, Repr

/-- An entry of the log. -/
structure Log.Entry where
  level : Log.Level
  message : Text
deriving DecidableEq, Repr

/-- What was reported, in order. -/
abbrev Log := List Log.Entry

/-- What every message begins with: the name of the one who reports. -/
def reporter : Text := "doxyrs: ".toList

/-- An entry with a message after the name of the one who reports. -/
def Log.entry (level : Log.Level) (message : Text) : Log.Entry := ⟨level, reporter ++ message⟩

end DoxygenMarkdown

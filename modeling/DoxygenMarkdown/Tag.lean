import DoxygenMarkdown.Text.Blank

/-!
# Tags and their roles

What a tag is for. Several tags may share a role (`brief` and `short`), and a tag is *known* if it
has one. Words after a marker that have no role are text like any other.
-/

namespace DoxygenMarkdown

/-- What the text after a tag says about the item. -/
inductive Role where
  | brief
  | title
  | deprecated
  | details
  | todo
  | parameter
  | returns
  | returnValue
  | throws
  | note
  | warning
  | since
  /-- Opens a block of code. -/
  | code
  /-- Closes a block of code. -/
  | endCode
  /-- Speaks of a file or of a declaration elsewhere, which a single comment has no use for. -/
  | unsupported
deriving DecidableEq, Repr

namespace Tag

/-- The known tags and their roles. -/
def roles : List (String × Role) := [
  ("brief", .brief), ("short", .brief), ("name", .title), ("deprecated", .deprecated),
  ("details", .details), ("todo", .todo), ("param", .parameter), ("return", .returns),
  ("returns", .returns), ("result", .returns), ("retval", .returnValue), ("throw", .throws),
  ("throws", .throws), ("exception", .throws), ("note", .note), ("remark", .note),
  ("remarks", .note), ("warning", .warning), ("attention", .warning), ("since", .since),
  ("code", .code), ("endcode", .endCode), ("class", .unsupported), ("def", .unsupported),
  ("enum", .unsupported), ("vhdlflow", .unsupported)]

/-- The role of a tag, which is written in small letters. -/
def role? (tag : Text) : Option Role :=
  (roles.find? fun entry => entry.1.toList = tag).map (·.2)

/-- Whether a tag has a role. -/
def isKnown (tag : Text) : Bool := (role? tag).isSome

/-- The tag that opens a block of code. -/
def code : Text := "code".toList

/-- The tag that closes a block of code. -/
def endCode : Text := "endcode".toList

end Tag

end DoxygenMarkdown

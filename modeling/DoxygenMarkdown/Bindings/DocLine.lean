import DoxygenMarkdown.Bindings.Body

/-!
# Doc attributes

A line of a file of bindings documents the item below it if it holds a doc attribute and nothing
else: `#[doc = "…"]`, with blanks around it and around the equals sign.
-/

namespace DoxygenMarkdown.Bindings

/-- A line that is a doc attribute: the blanks before it, and the body of its literal. -/
structure DocLine where
  indent : Text
  body : Text
deriving DecidableEq, Repr

namespace DocLine

/-- Read a line, if it is a doc attribute. -/
def read? (line : Text) : Option DocLine := do
  let rest ← Text.after? "#[doc".toList line.trimStart
  let rest ← Text.after? ['='] (Text.trimStart rest)
  let rest ← Text.after? ['"'] (Text.trimStart rest)
  let (body, rest) ← readBody? rest
  let rest ← Text.after? [']'] rest
  if Text.allBlank rest then some ⟨line.takeWhile isBlank, body⟩ else none

/-- The line that documents an item with a text. -/
def write (indent t : Text) : Text := indent ++ "#[doc = \"".toList ++ encodeBody t ++ "\"]".toList

end DocLine

end DoxygenMarkdown.Bindings

import DoxygenMarkdown.Comment
import DoxygenMarkdown.Documentation.Gathering
import DoxygenMarkdown.Documentation.Markdown

/-!
# From a comment to Markdown

The whole way of a single comment: its elements are read, what they say is gathered, and the
documentation is written as Markdown. Only the reading can fail; the gathering may leave things
out, which `notices` tells.
-/

namespace DoxygenMarkdown

/-- A comment as Markdown, and what was left out of it. -/
structure Rendering where
  text : Text
  notices : List Notice
deriving DecidableEq, Repr

/-- Write a comment as Markdown, with headings of some level. -/
def renderComment (level : Int) (comment : Text) : Except DirectionError Rendering :=
  match Comment.elements comment with
  | .error e => .error e
  | .ok es =>
    let gathered := Gathering.ofElements es
    .ok ⟨gathered.documentation.toMarkdown level, gathered.notices⟩

theorem renderComment_of_elements {t : Text} {es : List Element} (h : Comment.elements t = .ok es)
    (level : Int) :
    renderComment level t = .ok ⟨(Documentation.ofElements es).toMarkdown level,
      (Gathering.ofElements es).notices⟩ := by
  rw [renderComment, h]
  rfl

end DoxygenMarkdown

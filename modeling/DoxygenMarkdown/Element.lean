import DoxygenMarkdown.Outline
import DoxygenMarkdown.Tag

/-!
# Elements of a comment

A comment is a list of elements. A tag with what follows it and a plain line carry an outline; the
others only say how the elements around them hang together.
-/

namespace DoxygenMarkdown

/-- A piece of a comment. -/
inductive Element where
  /-- A tag, its qualifiers (directions of a parameter, the language of code), and what it says. -/
  | tagged (tag : Text) (qualifiers : List Text) (content : Outline)
  /-- A line of text. -/
  | plain (content : Outline)
  /-- A blank line, or the end of the comment. -/
  | separator
  | groupOpen
  | groupClose
  /-- A marker that introduces nothing. -/
  | bareMarker
deriving DecidableEq, Repr

namespace Element

/-- The outline that an element carries. -/
def content? : Element → Option Outline
  | tagged _ _ content => some content
  | plain content => some content
  | _ => none

/-- Change the outline that an element carries. -/
def mapContent (f : Outline → Outline) : Element → Element
  | tagged tag qualifiers content => tagged tag qualifiers (f content)
  | plain content => plain (f content)
  | e => e

/-- Whether indented lines below an element belong to it. Blocks of code are closed: nothing joins
them from outside. -/
def takesLines : Element → Bool
  | tagged tag _ _ => tag ≠ Tag.code && tag ≠ Tag.endCode
  | plain _ => true
  | _ => false

end Element

end DoxygenMarkdown

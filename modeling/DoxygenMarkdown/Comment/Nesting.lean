/-!
# How deep a line is

Indented lines nest by their columns. A `Nesting` remembers the columns that the lines so far have
opened, the innermost first; the left margin, column 0, lies below them all and is not listed.

One column more or less is noise: a line opens a level if it is at least two columns further right
than the innermost one, and closes levels if it is at least two further left. So each column
exceeds the one below it by two or more, and an open column is never at the margin.
-/

namespace DoxygenMarkdown.Comment

/-- The columns that are open, the innermost first. -/
structure Nesting where
  columns : List Nat := []
deriving DecidableEq, Repr

namespace Nesting

/-- The innermost column. -/
def innermost (n : Nesting) : Nat := n.columns.headD 0

/-- Take in a line at some column. -/
def enter (n : Nesting) (column : Nat) : Nesting :=
  if n.innermost + 2 ≤ column then ⟨column :: n.columns⟩
  else if column + 2 ≤ n.innermost then ⟨n.columns.dropWhile (column + 1 < ·)⟩
  else n

/-- The depth, on the edge of an outline, of the node that the last line belongs to. The outermost
column belongs to the root. -/
def depth (n : Nesting) : Nat := n.columns.length - 1

end Nesting

end DoxygenMarkdown.Comment

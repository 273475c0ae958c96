import DoxygenMarkdown.Bindings.DocLine
import DoxygenMarkdown.Bindings.Item
import DoxygenMarkdown.Text.Lines

/-!
# Runs of doc attributes

A file of bindings is cut into *runs*, as many doc attributes below each other as there are, and
the lines between them. The bodies of a run are the lines of one comment.

The cut is made from the end of the file: a doc attribute joins the run that begins on the next
line, if one does, and otherwise is a run by itself. So no two runs touch.
-/

namespace DoxygenMarkdown.Bindings

/-- A run of doc attributes. -/
structure DocRun where
  /-- The number of its first line, counted from one. -/
  line : Nat
  /-- The blanks before its first attribute. -/
  indent : Text
  comment : Text
  /-- The name of the item that it documents. -/
  item : Text
  /-- Its lines as they stand in the file. -/
  source : List Text
deriving DecidableEq, Repr

/-- A part of a file of bindings. -/
inductive Segment where
  | other (line : Text)
  | run (r : DocRun)
deriving DecidableEq, Repr

namespace Segment

/-- The lines that a segment was cut from. -/
def source : Segment → List Text
  | other line => [line]
  | run r => r.source

/-- The run that a segment is. -/
def run? : Segment → Option DocRun
  | other _ => none
  | run r => some r

/-- Put a doc attribute, which is line `n`, in front of what follows it: the segments `rest`, and
the lines `below` that they were cut from. -/
def consDocLine (n : Nat) (line : Text) (d : DocLine) (below : List Text) :
    (rest : List Segment) → List Segment
  | run r :: rest =>
    run ⟨n, d.indent, decodeBody d.body ++ '\n' :: r.comment, r.item, line :: r.source⟩ :: rest
  | rest => run ⟨n, d.indent, decodeBody d.body, itemBelow below, [line]⟩ :: rest

/-- The segments of lines, the first of which is line `n`. -/
def ofLines : (n : Nat) → List Text → List Segment
  | _, [] => []
  | n, line :: lines =>
    match DocLine.read? line with
    | none => other line :: ofLines (n + 1) lines
    | some d => consDocLine n line d lines (ofLines (n + 1) lines)

end Segment

/-- The segments of a file of bindings. -/
def segments (source : Text) : List Segment := Segment.ofLines 1 source.lines

/-- The runs of a file of bindings. -/
def runs (source : Text) : List DocRun := (segments source).filterMap Segment.run?

end DoxygenMarkdown.Bindings

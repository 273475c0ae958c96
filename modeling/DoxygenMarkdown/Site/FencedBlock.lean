import DoxygenMarkdown.Site.Cut

/-!
# Fenced blocks

A comment may stand in a page between two fences. The first has the *label* of such blocks behind
it, and the block ends at the next fence with the same indentation and nothing behind it. Without
such a fence there is no block.

The label is any text at all, so it may hold blanks and even line feeds; blanks around it do not
count.
-/

namespace DoxygenMarkdown.Site

/-- A fenced block of a page. Lines keep the line feeds that end them. -/
structure FencedBlock where
  indent : Text
  opening : List Text
  body : List Text
  closing : Text
deriving DecidableEq, Repr

namespace FencedBlock

/-- What begins and ends a block. -/
def fence : Text := "```".toList

/-- Whether a text is the label, with spaces and tabs around it. -/
def isLabel (label : Text) : Text → Bool
  | [] => label.isEmpty
  | c :: t =>
    (match Text.after? label (c :: t) with
      | some rest => rest.all isIndent
      | none => false) || (isIndent c && isLabel label t)

/-- The indentation of lines that open a block with a label. The last of them must end with a line
feed. -/
def opening? (label : Text) (ls : List Text) : Option Text :=
  let t := ls.flatten
  match Text.after? fence (t.dropWhile isIndent) with
  | some rest =>
    if Text.endsWith rest ['\n'] && isLabel label rest.dropLast then some (t.takeWhile isIndent)
    else none
  | none => none

/-- Whether a line closes a block with some indentation. -/
def closes (indent l : Text) : Bool :=
  match Text.after? (indent ++ fence) l.withoutBreak with
  | some rest => rest.all isIndent
  | none => false

/-- The block that begins with the first of some lines, and the number of lines after the first
that it has. -/
def find? (label : Text) (ls : List Text) : Option (FencedBlock × Nat) :=
  let height := label.lines.length
  let opening := ls.take height
  match opening? label opening with
  | none => none
  | some indent =>
    match (ls.drop height).span (!closes indent ·) with
    | (_, []) => none
    | (body, closing :: _) => some (⟨indent, opening, body, closing⟩, height + body.length)

/-- A block as it stands in the page, up to the line feed that ends its last line. -/
def source (b : FencedBlock) : Text := b.opening.flatten ++ b.body.flatten ++ b.closing.withoutBreak

/-- A line without the indentation of its block. One that is indented less loses all its blanks. -/
def withoutIndent (indent l : Text) : Text := (Text.after? indent l).getD l.trimStart

/-- The comment in a block. -/
def comment (b : FencedBlock) : Text :=
  Text.unlines ((Text.lines b.body.flatten).map (withoutIndent b.indent))

/-- Indent the lines of a text that are not empty. -/
def indentLines (indent t : Text) : Text :=
  Text.unlines (t.lines.map fun l => if l.isEmpty then l else indent ++ l)

end FencedBlock

end DoxygenMarkdown.Site

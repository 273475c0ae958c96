import DoxygenMarkdown.Documentation

/-!
# A documentation as Markdown

The parts of a documentation are written in a fixed order, each followed by an empty line. A part
that is absent leaves no trace.

Lists are indented so that Markdown keeps together what belongs together: `itemLines` writes a node
and the nodes below it, two columns deeper per level, and moves a text of several lines under its
bullet as a whole. An entry of a part begins with a star at the margin, and everything else in it
is indented, so entries can always be told apart.
-/

namespace DoxygenMarkdown

mutual

/-- The lines of an item at some indentation, and of the items below it. A text of several lines
stays one piece. Items may lie at any depth: how deep a recursion may go where this is run is left
out. -/
def Outline.itemLines : (indent : Nat) → Outline → List Text
  | indent, ⟨top, sub⟩ =>
    (List.replicate indent ' ' ++ '-' :: ' ' :: Text.hang (indent + 2) top) ::
      Outline.listLines (indent + 2) sub

/-- The lines of some items at the same indentation. -/
def Outline.listLines : (indent : Nat) → List Outline → List Text
  | _, [] => []
  | indent, o :: os => Outline.itemLines indent o ++ Outline.listLines indent os

end

/-- An outline as a paragraph with a list below it. -/
def Outline.render (indent : Nat) (o : Outline) : Text :=
  Text.unlines ((if o.top.isEmpty then [] else [o.top]) ++ Outline.listLines indent o.sub)

/-- The name of a direction. -/
def Direction.name : Direction → Text
  | input => "In".toList
  | output => "Out".toList
  | both => "In, Out".toList

namespace Markdown

/-- The fence around a block of code. -/
def fence : Text := "```".toList

/-- Whether a line is, blanks apart, the beginning or the end of a block of code. -/
def isFenceLine (line : Text) : Bool := line.trimStart.startsWith fence

/-- A heading. A level below one has no signs, and keeps the space after them. Any level is
written: how long a text may get where this is run is left out. -/
def headingLine (level : Int) (title : Text) : Text :=
  List.replicate level.toNat '#' ++ ' ' :: title

/-- The first line of an entry, before it is indented: its head, its text, or both. -/
def entryText (head : Text) (content : Option Outline) : Text :=
  match content with
  | none => head
  | some o =>
    if o.top.isEmpty then head
    else if head.isEmpty then o.top
    else head ++ " - ".toList ++ o.top

/-- Put a suffix behind a text. Behind the end of a block of code it goes to a line of its own,
because there it would open the block again. -/
def addSuffix (t suffix : Text) : Text :=
  if !suffix.isEmpty && isFenceLine (t.lines.getLastD []) then t ++ "\n ".toList ++ suffix
  else t ++ suffix

/-- An entry of a part, with the list below it. -/
def listEntry (head : Text) (content : Option Outline) (suffix : Text) : Text :=
  let first := '*' :: ' ' :: addSuffix (Text.hang 2 (entryText head content)) suffix
  Text.unlines (first :: Outline.listLines 2 ((content.map (·.sub)).getD []))

/-- A part that is a list of entries under a heading. -/
def sectionOf (title : String) (entries : List Text) (level : Int) : Text :=
  headingLine level title.toList ++ "\n\n".toList ++ Text.unlines entries

/-- A line of a comment that stands behind an item may begin with a pointer back to it. Drop it
from such lines, but not from code. -/
def dropPointers : (inCode : Bool) → List Text → List Text
  | _, [] => []
  | inCode, line :: lines =>
    if isFenceLine line then line :: dropPointers (!inCode) lines
    else if !inCode && line.trimStart.startsWith "< ".toList then
      (line.takeWhile isBlank ++ line.trimStart.drop 2) :: dropPointers inCode lines
    else line :: dropPointers inCode lines

/-- A paragraph of the description. -/
def paragraph (o : Outline) : Text := Text.unlines (dropPointers false (o.render 0).lines)

/-- A text in a block quote. -/
def blockQuote (label : String) (o : Outline) : Text :=
  Text.unlines ((Text.lines (label.toList ++ o.render 0)).map fun line =>
    if line.isEmpty then ['>'] else '>' :: ' ' :: line)

/-- A name as code. -/
def codeSpan (name : Text) : Text := "`".toList ++ name ++ "`".toList

/-- The entry of a parameter. -/
def parameterEntry (p : Parameter) : Text :=
  listEntry (codeSpan p.name) p.description <| match p.direction with
    | some d => " [Direction: ".toList ++ d.name ++ "]".toList
    | none => []

/-- The entry of a value that may be returned. -/
def returnValueEntry (o : Explained) : Text := listEntry (codeSpan o.name) o.description []

/-- The entry of an exception, which is linked. -/
def throwsEntry (o : Explained) : Text :=
  listEntry ('[' :: codeSpan o.name ++ [']']) o.description []

/-- The entry of a text without a head. -/
def plainEntry (o : Outline) : Text := listEntry [] (some o) []

/-- The warning that an item is deprecated. -/
def deprecation (d : Deprecation) : Text :=
  "**Warning!** This is deprecated!".toList ++ match d.message with
    | some message => " - ".toList ++ message.render 0
    | none => []

/-- The blocks of a documentation, in order. -/
def blocks (level : Int) (doc : Documentation) : List Text :=
  (doc.title.map fun o => headingLine level o.top).toList ++
  (doc.deprecated.map deprecation).toList ++
  (doc.brief.map (Outline.render 0)).toList ++
  (doc.description.map fun os => List.intercalate "\n\n".toList (os.map paragraph)).toList ++
  (doc.warnings.getD []).map (blockQuote "**Warning:** ") ++
  (doc.returns.map fun os => sectionOf "Returns" (os.map plainEntry) level).toList ++
  (doc.parameters.map fun ps => sectionOf "Arguments" (ps.map parameterEntry) level).toList ++
  (doc.returnValues.map fun os =>
    sectionOf "Return values" (os.map returnValueEntry) level).toList ++
  (doc.throws.map fun os => sectionOf "Throws" (os.map throwsEntry) level).toList ++
  (doc.notes.map fun os => sectionOf "Notes" (os.map plainEntry) level).toList ++
  (doc.todos.map fun os => sectionOf "To Do" (os.map plainEntry) level).toList ++
  (doc.since.map (blockQuote "Available since: ")).toList

end Markdown

/-- A documentation as Markdown, with headings of some level. -/
def Documentation.toMarkdown (level : Int) (doc : Documentation) : Text :=
  (Markdown.blocks level doc).flatMap (· ++ "\n\n".toList)

end DoxygenMarkdown

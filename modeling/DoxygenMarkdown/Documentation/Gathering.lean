import DoxygenMarkdown.Documentation
import DoxygenMarkdown.Element
import DoxygenMarkdown.Log

/-!
# Gathering a documentation

The elements of a comment are taken in one by one. Most go straight to the part that their tag
names. Paragraphs are the exception: the tags for details and for things to do open a *buffer*,
which takes in the lines and the code that follow, up to the next separator or the next such tag,
and only then goes to its part.

Outside a buffer, lines are paragraphs of the description. Lines that follow each other are one
paragraph (`joinable`); anything but a line begins a new one.

* A separator brings the buffer and `joinable` back to what they are at the start, so what stands
  left of it never joins what stands right of it.
* Entries that need a name and have none are left out, with a notice, and so are tags that a single
  comment has no use for.
-/

namespace DoxygenMarkdown

/-- Something that was left out. -/
inductive Notice where
  | parameterWithoutName
  | returnValueWithoutValue
  | throwsWithoutName (tag : Text)
  | unsupportedTag (tag : Text)
deriving DecidableEq, Repr

/-- The entry of the log for something that was left out. -/
def Notice.entry (n : Notice) : Log.Entry :=
  Log.entry .debug <| match n with
    | parameterWithoutName => "dropping @param without an argument name".toList
    | returnValueWithoutValue => "dropping @retval without a value".toList
    | throwsWithoutName tag => "dropping @".toList ++ tag ++ " without an exception name".toList
    | unsupportedTag tag => "dropping unsupported @".toList ++ tag

/-- The part of a documentation that a buffer goes to. -/
inductive Destination where
  | description
  | todos
deriving DecidableEq, Repr

/-- Paragraphs that are still growing. -/
structure Buffer where
  destination : Destination
  paragraphs : List Outline
deriving DecidableEq, Repr

/-- What is known after some elements. -/
structure Gathering where
  title : Option Outline := none
  brief : Option Outline := none
  description : List Outline := []
  parameters : List Parameter := []
  deprecated : Option Deprecation := none
  notes : List Outline := []
  warnings : List Outline := []
  todos : List Outline := []
  returns : List Outline := []
  returnValues : List Explained := []
  throws : List Explained := []
  since : Option Outline := none
  buffer : Option Buffer := none
  /-- Whether a line would go on with the last paragraph of the description. -/
  joinable : Bool := false
  notices : List Notice := []
deriving DecidableEq, Repr

/-- The first word of a content, and what the rest of it says, if it says anything. -/
def Outline.splitName? (content : Outline) : Option (Text × Option Outline) :=
  let start := content.top.trimStart
  let name := start.takeWhile (!isBlank ·)
  let rest := Text.trimStart (start.dropWhile (!isBlank ·))
  if name.isEmpty then none
  else if rest.isEmpty && content.sub.isEmpty then some (name, none)
  else some (name, some ⟨rest, content.sub⟩)

/-- Put a line below the last paragraph, as long as that has no items, or begin a new one. -/
def joinParagraph (paragraphs : List Outline) (content : Outline) (join : Bool) : List Outline :=
  match paragraphs.getLast? with
  | some last =>
    if join && last.sub.isEmpty then
      paragraphs.dropLast ++ [{ last.startLine content.top with sub := content.sub }]
    else paragraphs ++ [content]
  | none => paragraphs ++ [content]

/-- What is left of the ends of a comment when it is cut out: no text. -/
def isDecoration (content : Outline) : Bool :=
  content.sub.isEmpty && ["*".toList, "**".toList, "*/".toList].contains content.top.trim

namespace Gathering

/-- Close the buffer. Its paragraphs go to their part, except those that hold nothing. -/
def closeBuffer (g : Gathering) : Gathering :=
  match g.buffer with
  | none => g
  | some b =>
    let paragraphs := b.paragraphs.filter (!·.isEmpty)
    match b.destination with
    | .description => { g with description := g.description ++ paragraphs, buffer := none }
    | .todos => { g with todos := g.todos ++ paragraphs, buffer := none }

/-- Open a buffer that begins with a content. -/
def openBuffer (g : Gathering) (destination : Destination) (content : Outline) : Gathering :=
  { g.closeBuffer with buffer := some ⟨destination, [content]⟩ }

/-- Report that something was left out. -/
def report (g : Gathering) (n : Notice) : Gathering := { g with notices := g.notices ++ [n] }

/-- Take in a line. -/
def takeLine (g : Gathering) (content : Outline) : Gathering :=
  if content.isEmpty || isDecoration content then g
  else
    match g.buffer with
    | some b =>
      { g with buffer := some { b with paragraphs := joinParagraph b.paragraphs content true } }
    | none =>
      { g with
        description := joinParagraph g.description content g.joinable
        joinable := true }

/-- Take in a blank line. -/
def takeSeparator (g : Gathering) : Gathering := { g.closeBuffer with joinable := false }

/-- Take in a block of code, which is a paragraph of its own. -/
def takeCode (g : Gathering) (content : Outline) : Gathering :=
  match g.buffer with
  | some b => { g with buffer := some { b with paragraphs := b.paragraphs ++ [content] } }
  | none => { g with description := g.description ++ [content] }

/-- Put another short description below the one so far. -/
def joinBrief (brief : Option Outline) (content : Outline) : Outline :=
  match brief with
  | none => content
  | some b => { b.addLine content.top with sub := b.sub ++ content.sub }

/-- Take in what a tag with some role says. -/
def takeRole (g : Gathering) (tag : Text) (qualifiers : List Text) (content : Outline) :
    Role → Gathering
  | .brief => { g with brief := some (joinBrief g.brief content) }
  | .title => { g with title := some content }
  | .deprecated =>
    { g with deprecated := some { message := if content.isEmpty then none else some content } }
  | .details => g.openBuffer .description content
  | .todo => g.openBuffer .todos content
  | .parameter =>
    match content.splitName? with
    | some (name, description) =>
      let parameter := ⟨name, Direction.ofQualifiers? qualifiers, description⟩
      { g with parameters := g.parameters ++ [parameter] }
    | none => g.report .parameterWithoutName
  | .returns => { g with returns := g.returns ++ [content] }
  | .returnValue =>
    match content.splitName? with
    | some (name, description) =>
      { g with returnValues := g.returnValues ++ [⟨name, description⟩] }
    | none => g.report .returnValueWithoutValue
  | .throws =>
    match content.splitName? with
    | some (name, description) => { g with throws := g.throws ++ [⟨name, description⟩] }
    | none => g.report (.throwsWithoutName tag)
  | .note => { g with notes := g.notes ++ [content] }
  | .warning => { g with warnings := g.warnings ++ [content] }
  | .since => { g with since := some content }
  | .code => g.takeCode content
  | .endCode => g
  | .unsupported => g.report (.unsupportedTag tag)

/-- Take in an element. -/
def take (g : Gathering) : Element → Gathering
  | .tagged tag qualifiers content =>
    let g := { g with joinable := false }
    match Tag.role? tag with
    | some role => g.takeRole tag qualifiers content role
    | none => g
  | .plain content => g.takeLine content
  | .separator => g.takeSeparator
  | .groupOpen | .groupClose | .bareMarker => g

/-- All that some elements say. -/
def ofElements (es : List Element) : Gathering := (es.foldl take {}).closeBuffer

/-- A part that holds something. -/
def part? {α : Type} (xs : List α) : Option (List α) := if xs.isEmpty then none else some xs

/-- The documentation that was gathered. A list that received nothing is absent. -/
def documentation (g : Gathering) : Documentation where
  title := g.title
  brief := g.brief
  description := part? g.description
  parameters := part? g.parameters
  deprecated := g.deprecated
  notes := part? g.notes
  warnings := part? g.warnings
  todos := part? g.todos
  returns := part? g.returns
  returnValues := part? g.returnValues
  throws := part? g.throws
  since := g.since

end Gathering

/-- The documentation that the elements of a comment make up. -/
def Documentation.ofElements (es : List Element) : Documentation :=
  (Gathering.ofElements es).documentation

end DoxygenMarkdown

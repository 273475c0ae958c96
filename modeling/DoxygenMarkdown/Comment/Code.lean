import DoxygenMarkdown.Element
import DoxygenMarkdown.Marker
import DoxygenMarkdown.Token

/-!
# Blocks of code

A tag for code opens a block unless the line closes it again. From there on lines are kept as they
are written, up to the line that begins with the closing tag.

A block that stands by itself is an element. One that begins in the middle of a line, or below an
element that takes lines, is fenced inside that element instead: in the node of its edge that a
plain line would have gone to. Either way the node lies on the edge of the last element, so a depth
says where it is (`CodeBlock.depth`).
-/

namespace DoxygenMarkdown.Comment

/-- A block of code that is open. -/
structure CodeBlock where
  /-- The depth of the node that collects the code, on the edge of the last element. -/
  depth : Nat
  /-- How far the line was indented that opened the block. -/
  indent : Nat
  /-- Whether the block is an element of its own. -/
  standalone : Bool
deriving DecidableEq, Repr

/-- A line of code without the indentation of its block. -/
def CodeBlock.content (block : CodeBlock) (raw : Text) : Text :=
  if Text.allBlank (raw.take block.indent) then raw.drop block.indent else raw.trimStart

/-- Whether a word opens a block of code. -/
def opensCode (word : Text) : Bool :=
  match Marker.leading? word with
  | some (_, tag) => tag = Tag.code
  | none => false

/-- The words of a line before and from the tag that opens a block of code on it. A line that also
closes the block opens none. -/
def openCode? (line : Text) : Option (Text × Text) :=
  match line.words.span (!opensCode ·) with
  | (_, []) => none
  | (before, opener :: rest) =>
    if rest.any (Marker.leads · Tag.endCode) then none
    else some (Text.unwords before, Text.unwords (opener :: rest))

/-- The first lines of a block of code, as they are read off the line that opens it: the language,
if braces name one, and the fence with what else stands on that line below it. -/
structure Opening where
  languages : List Text
  text : Text
deriving DecidableEq, Repr

/-- The line that begins a fence, and a line below it unless that is empty. -/
def fenceText (language rest : Text) : Text :=
  "```".toList ++ language ++ if rest.isEmpty then [] else '\n' :: rest

/-- Read what follows the tag that opens a block of code. -/
def readOpening : List Token → Opening
  | ⟨.brace, ['{']⟩ :: ⟨.word, word⟩ :: ⟨.brace, ['}']⟩ :: tokens =>
    let language := word.dropWhile (· == '.')
    ⟨[language], fenceText language (Token.concat tokens).trim⟩
  | tokens => ⟨[], fenceText [] (Token.concat tokens).trim⟩

end DoxygenMarkdown.Comment

import DoxygenMarkdown.Comment.Direction
import DoxygenMarkdown.Element
import DoxygenMarkdown.Inline
import DoxygenMarkdown.Text.LetterCase
import DoxygenMarkdown.Token

/-!
# What a line says

A line of a comment, outside code, is read by itself (`readLine`). Most lines are an element. An
indented line is not: it goes on with the element before it, as more text or as a bullet, and only
the reader of the whole comment knows where it belongs.

A marker with nothing after it, and a marker right before a brace, count however far they are
indented. A tag counts only where a line is not indented; elsewhere it is text.
-/

namespace DoxygenMarkdown.Comment

/-- An indented line: its text without bullet, how far it is indented, and whether it is an
item. -/
structure IndentedLine where
  text : Text
  indent : Nat
  isItem : Bool
deriving DecidableEq, Repr

/-- What a line says. -/
inductive Reading where
  | element (e : Element)
  | indented (l : IndentedLine)
deriving DecidableEq, Repr

/-- A line without the star that begins every line of some comments. -/
def dropStar : Text → Text
  | '*' :: ' ' :: line => line
  | line => if line.trim = ['*'] then [] else line

/-- The signs that make a line an item. -/
def isBullet (c : Char) : Bool := c == '-' || c == '*' || c == '+'

/-- Whether a text begins with a bullet that stands by itself. -/
def isItem : Text → Bool
  | [] => false
  | [c] => isBullet c
  | c :: d :: _ => isBullet c && isIndent d

/-- Read an indented line. -/
def readIndented (line : Text) : IndentedLine :=
  let body := line.trim
  let item := isItem body
  { text := Inline.format (if item then Text.trimStart (body.drop 1) else body)
    indent := line.indentation
    isItem := item }

/-- A plain line. -/
def plainLine (line : Text) : Element := .plain (.leaf (Inline.format line))

/-- Read a line that begins with a marker and a word. It is tagged if the word is a known tag, in
any letter case, up to the bracket that begins its qualifier. The tag for code makes the line
plain: it opens a block in small letters only, and those lines were picked out before. -/
def readTagged (line word : Text) : Except DirectionError Element :=
  let name := word.takeWhile (· ≠ '[')
  let tag := Text.lower name
  if tag = Tag.code then .ok (plainLine line)
  else if Tag.isKnown tag then do
    let qualifiers ←
      if tag = "param".toList then readDirection (word.dropWhile (· ≠ '[')) else .ok []
    .ok (.tagged tag qualifiers (.leaf (Inline.format (Marker.dropLeading line name))))
  else .ok (plainLine line)

/-- Read a line that is not blank and whose tokens are known. -/
def readTokens (line : Text) : List Token → Except DirectionError Reading
  | [⟨.marker, _⟩] => .ok (.element .bareMarker)
  | ⟨.marker, _⟩ :: ⟨.blank, _⟩ :: _ => .ok (.element .bareMarker)
  | ⟨.marker, _⟩ :: ⟨.brace, brace⟩ :: _ =>
    .ok (.element (if brace = ['{'] then .groupOpen else .groupClose))
  | tokens =>
    if line.indentation ≠ 0 then .ok (.indented (readIndented line))
    else
      match tokens with
      | ⟨.marker, _⟩ :: ⟨.word, word⟩ :: _ => do .ok (.element (← readTagged line word))
      | _ => .ok (.element (plainLine line))

/-- Read a line outside code. -/
def readLine (line : Text) : Except DirectionError Reading :=
  if line.allBlank then .ok (.element .separator) else readTokens line (Token.scan line.trim)

end DoxygenMarkdown.Comment

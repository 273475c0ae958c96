import DoxygenMarkdown.Marker
import DoxygenMarkdown.Inline.Emoji

/-!
# Markup inside a line

Words of a line may be marked up: addresses, references, emoji, styles, and code on one line. Each
pass of this module goes over the words of a line and puts one space between the words that come
out, so gaps become as narrow as they can be.

Most passes are of one shape, `changeAfter`: a word that is a marker vanishes and decides what
becomes of the word after it. A marker that ends the line just vanishes.

`format` is all passes one after the other. The markers of code come last, because what they are
replaced by holds a line feed.
-/

namespace DoxygenMarkdown.Inline

/-- Go over words. Where `rule` finds a marker, the marker is dropped and the next word, whatever
it is, is changed as the rule says. -/
def changeAfter (rule : Text → Option (Text → Text)) : List Text → List Text
  | [] => []
  | [w] => if (rule w).isSome then [] else [w]
  | w :: next :: ws =>
    match rule w with
    | some change => change next :: changeAfter rule ws
    | none => w :: changeAfter rule (next :: ws)

/-- Put a text between two others. -/
def between (left right : String) (t : Text) : Text := left.toList ++ t ++ right.toList

/-- A word without the full stop or comma that it ends with. -/
def dropPunctuation (word : Text) : Text :=
  match word.getLast? with
  | some c => if c = '.' ∨ c = ',' then word.dropLast else word
  | none => word

/-- A word that is the address of a page. -/
def isAddress (word : Text) : Bool :=
  word.startsWith "http://".toList || word.startsWith "https://".toList

/-- The tags before the name of another item. -/
def referenceTags : List Text := ["ref".toList, "sa".toList, "see".toList]

/-- The tags before a slanted word. -/
def slantedTags : List Text := ["a".toList, "e".toList, "em".toList]

/-- The tags before a bold word. -/
def boldTags : List Text := ["b".toList]

/-- The tags before a word of code. -/
def codeTags : List Text := ["c".toList, "p".toList]

/-- Put addresses into angle brackets, so that they can be clicked. -/
def linkAddresses (t : Text) : Text :=
  Text.unwords (t.words.map fun w =>
    if isAddress w then between "<" ">" (dropPunctuation w) else w)

/-- The rule for references: the item becomes a link. -/
def referenceRule (w : Text) : Option (Text → Text) :=
  if Marker.isSpellingOfAny w referenceTags then some fun next =>
    between "[`" "`]" (dropPunctuation next)
  else none

/-- The rule for emoji: the name becomes the emoji. -/
def emojiRule (w : Text) : Option (Text → Text) :=
  if Marker.isSpelling w "emoji".toList then some Emoji.named else none

/-- The rule for styles. -/
def styleRule (w : Text) : Option (Text → Text) :=
  if Marker.isSpellingOfAny w slantedTags then some (between "*" "*")
  else if Marker.isSpellingOfAny w boldTags then some (between "**" "**")
  else if Marker.isSpellingOfAny w codeTags then some (between "`" "`")
  else none

/-- Link the items that a line refers to. -/
def linkReferences (t : Text) : Text := Text.unwords (changeAfter referenceRule t.words)

/-- Show the emoji that a line names. -/
def showEmoji (t : Text) : Text := Text.unwords (changeAfter emojiRule t.words)

/-- Style the words that a line marks. -/
def styleWords (t : Text) : Text := Text.unwords (changeAfter styleRule t.words)

/-- Fence code that begins and ends within a line. -/
def fenceCode (t : Text) : Text :=
  Marker.replaceTag (Marker.replaceTag t "endcode".toList "```".toList) "code".toList
    "\n```".toList

/-- All markup of a line. -/
def format (t : Text) : Text :=
  fenceCode (styleWords (showEmoji (linkReferences (linkAddresses t))))

end DoxygenMarkdown.Inline

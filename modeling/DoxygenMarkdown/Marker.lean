import DoxygenMarkdown.Text.Words

/-!
# Tag markers

A tag in a comment is written after a marker, and there are three markers. This module tells which
words are tags, by whole words: `param` is never found in `parameter`.

* `IsSpelling` holds of a word that is a marker and a given tag, and nothing else.
* `stem` cuts the qualifier off a word, so that `@param[in]` is a spelling of `param`. A bracket
  that the word begins with is no qualifier.
* `leading?` reads the tag that a text begins with; `leads`, `occurs`, `dropLeading` and
  `replaceTag` ask for a given tag.
-/

namespace DoxygenMarkdown

/-- What a tag is written after. -/
inductive Marker where
  | twoBackslashes
  | backslash
  | atSign
deriving DecidableEq, Repr

namespace Marker

/-- The marker as it is written. -/
def text : Marker → Text
  | twoBackslashes => ['\\', '\\']
  | backslash => ['\\']
  | atSign => ['@']

/-- All markers, a longer one before one that it begins with. -/
def all : List Marker := [twoBackslashes, backslash, atSign]

/-- The ways to write a tag. -/
def spellings (tag : Text) : List Text := all.map (·.text ++ tag)

/-- Whether a word is a spelling of a tag. -/
def isSpelling (word tag : Text) : Bool := word ∈ spellings tag

/-- Whether a word is a spelling of one of some tags. -/
def isSpellingOfAny (word : Text) (tags : List Text) : Bool := tags.any (isSpelling word)

/-- Cut a word before the first `stop`, unless it begins with it. -/
def cutBefore (stop : Char) : Text → Text
  | [] => []
  | c :: w => if c = stop then c :: w else c :: w.takeWhile (· ≠ stop)

/-- A word without the qualifier that it ends with, in brackets or in braces. -/
def stem (word : Text) : Text := cutBefore '{' (cutBefore '[' word)

/-- Whether the first word of a text is a tag. -/
def leads (text tag : Text) : Bool :=
  match text.words with
  | [] => false
  | w :: _ => isSpelling (stem w) tag

/-- Whether some word of a text is a tag. -/
def occurs (text tag : Text) : Bool := text.words.any fun w => isSpelling (stem w) tag

/-- A text without its first word and the blanks around that word. -/
def dropFirstWord (text : Text) : Text :=
  Text.trimStart (text.trimStart.dropWhile (!isBlank ·))

/-- A text without the tag that it begins with, and without the tag's qualifier. -/
def dropLeading (text tag : Text) : Text := if leads text tag then dropFirstWord text else text

/-- A text with every word that is a tag replaced. -/
def replaceTag (text tag replacement : Text) : Text :=
  Text.unwords (text.words.map fun w => if isSpelling w tag then replacement else w)

/-- The marker that a word begins with, and the tag after it. -/
def split? (word : Text) : Option (Marker × Text) :=
  match all.findSome? fun m => (Text.after? m.text word).map (m, ·) with
  | some (_, []) => none
  | found => found

/-- The marker and the tag that a text begins with. -/
def leading? (text : Text) : Option (Marker × Text) :=
  match text.words with
  | [] => none
  | w :: _ => split? (stem w)

end Marker

end DoxygenMarkdown

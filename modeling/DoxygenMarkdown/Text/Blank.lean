/-!
# Texts and their blanks

A text is the list of its characters, so that every definition of the library can follow it by
plain recursion. This module fixes which characters are *blank*, and removes them from the ends:

* `isBlank` is the one notion of white space: the ASCII controls that move the cursor, the four
  separators `U+001C` to `U+001F`, and the spaces of Unicode. It is larger than
  `Char.isWhitespace`, which knows four characters of ASCII.
* `trimStart`, `trimEnd` and `trim` cut blanks off a text.
-/

namespace DoxygenMarkdown

/-- A text, character by character. -/
abbrev Text := List Char

/-- The characters that separate words: 29 code points in ten ranges. -/
def isBlank (c : Char) : Bool :=
  let n := c.toNat
  n == 0x20 || (0x09 ≤ n && n ≤ 0x0D) || (0x1C ≤ n && n ≤ 0x1F) || n == 0x85 || n == 0xA0 ||
    n == 0x1680 || (0x2000 ≤ n && n ≤ 0x200A) || n == 0x2028 || n == 0x2029 || n == 0x202F ||
    n == 0x205F || n == 0x3000

/-- The blanks that keep a line in place: a space or a tab. Only these two indent. -/
def isIndent (c : Char) : Bool := c == ' ' || c == '\t'

/-- An indenting character is blank. -/
theorem isBlank_of_isIndent {c : Char} (h : isIndent c = true) : isBlank c = true := by
  simp only [isIndent, Bool.or_eq_true, beq_iff_eq] at h
  rcases h with rfl | rfl <;> decide

namespace Text

/-- Cut the longest run of characters that satisfy `p` off the end. -/
def dropEndWhile (p : Char → Bool) (t : Text) : Text := (t.reverse.dropWhile p).reverse

/-- Cut the blanks off the start. -/
def trimStart (t : Text) : Text := t.dropWhile isBlank

/-- Cut the blanks off the end. -/
def trimEnd (t : Text) : Text := t.dropEndWhile isBlank

/-- Cut the blanks off both ends. -/
def trim (t : Text) : Text := (trimStart t).trimEnd

/-- A text of blanks only; the empty text is one. -/
def allBlank (t : Text) : Bool := t.all isBlank

/-- The number of spaces and tabs that a line starts with. -/
def indentation (t : Text) : Nat := (t.takeWhile isIndent).length

/-- What follows `start` in a text that begins with it. -/
def after? : (start : Text) → Text → Option Text
  | [], t => some t
  | _ :: _, [] => none
  | s :: start, c :: t => if s = c then after? start t else none

/-- Something comes after `start` in exactly the texts that begin with it. -/
theorem after?_eq_some_iff {start t r : Text} : after? start t = some r ↔ t = start ++ r := by
  induction start generalizing t with
  | nil => simp [after?, eq_comm]
  | cons s start ih =>
    cases t with
    | nil => simp [after?]
    | cons c t =>
      by_cases h : s = c
      · subst h; simp [after?, ih]
      · simp [after?, h, Ne.symm h]

theorem after?_append (start t : Text) : after? start (start ++ t) = some t :=
  after?_eq_some_iff.2 rfl

theorem after?_self (t : Text) : after? t t = some [] :=
  after?_eq_some_iff.2 (List.append_nil t).symm

/-- Whether a text begins with `start`. -/
def startsWith (t start : Text) : Bool := (after? start t).isSome

/-- Whether a text ends with `tail`. -/
def endsWith (t tail : Text) : Bool := tail.isSuffixOf t

theorem endsWith_append (t tail : Text) : endsWith (t ++ tail) tail = true :=
  List.isSuffixOf_iff_suffix.2 (List.suffix_append t tail)

end Text

end DoxygenMarkdown

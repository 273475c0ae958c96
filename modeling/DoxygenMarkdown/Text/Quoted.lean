import DoxygenMarkdown.Text.Blank
import DoxygenMarkdown.Text.Printable

/-!
# Quoted texts

A message that shows a text from outside puts it in quotes, so that the reader sees where it begins
and ends:

* the quotes are single ones, unless the text has a single quote in it and no double one;
* a backslash and the chosen quote are written after a backslash, and so are the tab, the line feed
  and the carriage return, by their letters;
* any other character that leaves no mark is written by its code point, with two, four or eight
  digits.
-/

namespace DoxygenMarkdown.Text

/-- The last `width` digits of a number to the base 16, in small letters. -/
def hexDigits (width n : Nat) : Text :=
  let digits := Nat.toDigits 16 n
  List.replicate (width - digits.length) '0' ++ digits

/-- The quote that a text is put in. -/
def quoteFor (t : Text) : Char := if t.contains '\'' && !t.contains '"' then '"' else '\''

/-- A character as it stands inside quotes. -/
def quotedChar (quote c : Char) : Text :=
  if c = quote ∨ c = '\\' then ['\\', c]
  else if c = '\t' then ['\\', 't']
  else if c = '\n' then ['\\', 'n']
  else if c = '\r' then ['\\', 'r']
  else if isPrintable c then [c]
  else if c.toNat < 0x100 then '\\' :: 'x' :: hexDigits 2 c.toNat
  else if c.toNat < 0x10000 then '\\' :: 'u' :: hexDigits 4 c.toNat
  else '\\' :: 'U' :: hexDigits 8 c.toNat

/-- A text in quotes. -/
def quoted (t : Text) : Text :=
  let quote := quoteFor t
  quote :: t.flatMap (quotedChar quote) ++ [quote]

end DoxygenMarkdown.Text

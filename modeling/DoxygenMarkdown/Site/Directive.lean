import DoxygenMarkdown.Site.Cut
import DoxygenMarkdown.Text.Words
import DoxygenMarkdown.Text.WordChar

/-!
# Directives

A directive stands on a line of its own and asks for the documentation in a file of bindings. Its
options follow on the lines below, which are indented further: a key between colons, and a value.
Blank lines may stand before the options, but not between them, and a line without a line feed at
its end is no option any more.

An option without a value takes the line below for its value, as it stands, so that line sets no
option of its own. If there is no line below, the value is empty; it is not even set if nothing at
all follows the key.
-/

namespace DoxygenMarkdown.Site

/-- A line that sets an option: its key, and what follows the second colon. -/
structure OptionLine where
  key : Text
  rest : Text
deriving DecidableEq, Repr

namespace OptionLine

/-- Read a line, if it sets an option of a directive with some indentation. -/
def read? (indent l : Text) : Option OptionLine := do
  let further ← Text.after? indent l
  let _ ← if (further.takeWhile isIndent).isEmpty then none else some ()
  let t ← Text.after? [':'] (further.dropWhile isIndent)
  let rest ← Text.after? [':'] (t.dropWhile isWordChar)
  if (t.takeWhile isWordChar).isEmpty || !l.endsWith ['\n'] then none
  else some ⟨t.takeWhile isWordChar, Text.withoutBreak rest⟩

/-- The line from its first colon on. -/
def text (o : OptionLine) : Text := ':' :: o.key ++ ':' :: o.rest

/-- The keys and values that lines set, in order. -/
def settings : List OptionLine → List (Text × Text)
  | [] => []
  | [o] => if o.rest.isEmpty then [] else [(o.key, o.rest.trim)]
  | o :: next :: os =>
    if o.rest.allBlank then (o.key, next.text.trim) :: settings os
    else (o.key, o.rest.trim) :: settings (next :: os)

end OptionLine

/-- A directive: the lines that set its options. -/
structure Directive where
  options : List OptionLine
deriving DecidableEq, Repr

namespace Directive

/-- What a directive begins with. -/
def mark : Text := ":::".toList

/-- The indentation of a line that begins a directive, which must end with a line feed. -/
def opening? (l : Text) : Option Text := do
  let rest ← Text.after? mark (l.dropWhile isIndent)
  let _ ← if (rest.takeWhile isIndent).isEmpty then none else some ()
  let rest ← Text.after? "doxygen:bindgen".toList (rest.dropWhile isIndent)
  if rest.allBlank && l.endsWith ['\n'] then some (l.takeWhile isIndent) else none

/-- A line of blanks that ends with a line feed. -/
def isGap (l : Text) : Bool := l.allBlank && l.endsWith ['\n']

/-- The lines that set options at the start of some lines. -/
def optionLines (indent : Text) : List Text → List OptionLine
  | [] => []
  | l :: ls =>
    match OptionLine.read? indent l with
    | some o => o :: optionLines indent ls
    | none => []

/-- The directive that begins with the first of some lines, and the number of lines after the first
that it has. -/
def find? : List Text → Option (Directive × Nat)
  | [] => none
  | l :: ls =>
    match opening? l with
    | none => none
    | some indent =>
      let options := optionLines indent (ls.dropWhile isGap)
      some (⟨options⟩, (ls.takeWhile isGap).length + options.length)

/-- The value of an option: the last one that was set. -/
def value? (d : Directive) (key : String) : Option Text :=
  (OptionLine.settings d.options).reverse.lookup key.toList

end Directive

end DoxygenMarkdown.Site

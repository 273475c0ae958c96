import DoxygenMarkdown.Text.Blank
import DoxygenMarkdown.Text.WordChar

/-!
# Declared items

Documentation belongs to the item declared below it. `itemBelow` finds its name: blank lines and
attributes are passed over, and the first other line decides. It names an item if it declares one,
as a Rust file does, or if it is a public field.
-/

namespace DoxygenMarkdown.Bindings

/-- What follows the blanks that a text begins with; there must be one at least. -/
def afterBlanks? : Text → Option Text
  | [] => none
  | c :: t => if isBlank c then some (Text.trimStart t) else none

/-- What follows a word and the blanks after it. -/
def afterWord? (word : String) (t : Text) : Option Text :=
  (Text.after? word.toList t).bind afterBlanks?

/-- A text without the word and the blanks that it begins with, if it does. -/
def skipWord (word : String) (t : Text) : Text := (afterWord? word t).getD t

/-- What follows a pair of round brackets, or all of a text that does not begin with one. -/
def skipBrackets (t : Text) : Text :=
  match t with
  | '(' :: inside =>
    match inside.dropWhile (· ≠ ')') with
    | _ :: rest => rest
    | [] => t
  | _ => t

/-- A text without the visibility that it begins with. -/
def skipVisibility (t : Text) : Text :=
  ((Text.after? "pub".toList t).bind fun rest => afterBlanks? (skipBrackets rest)).getD t

/-- A text without the calling convention that it begins with. -/
def skipConvention (t : Text) : Text :=
  ((afterWord? "extern" t).bind (afterWord? "\"C\"")).getD t

/-- The name that a text begins with. -/
def name? (t : Text) : Option Text :=
  let name := t.takeWhile isWordChar
  if name.isEmpty then none else some name

/-- The words that declare an item, with the name next to them. -/
def declaringWords : List String := ["fn", "struct", "enum", "union", "const", "type", "mod"]

/-- The name of a static item, which may be mutable. -/
def staticName? (t : Text) : Option Text :=
  (afterWord? "static" t).bind fun rest => ((afterWord? "mut" rest).bind name?).or (name? rest)

/-- The name of the item that a line declares. -/
def declaredName? (line : Text) : Option Text :=
  let t := skipConvention (skipWord "unsafe" (skipVisibility line.trimStart))
  (declaringWords.findSome? fun word => (afterWord? word t).bind name?).or (staticName? t)

/-- The name of the public field that a line declares. -/
def fieldName? (line : Text) : Option Text := do
  let rest ← afterWord? "pub" line.trimStart
  let name ← name? rest
  let _ ← Text.after? [':'] (Text.trimStart (rest.dropWhile isWordChar))
  some name

/-- Whether a line begins with an attribute. -/
def isAttribute (line : Text) : Bool := Text.startsWith line.trimStart "#[".toList

/-- The name of the item that is declared by the first of some lines that is neither blank nor an
attribute, and the empty text if that line declares none. -/
def itemBelow : List Text → Text
  | [] => []
  | line :: lines =>
    if line.allBlank || isAttribute line then itemBelow lines
    else ((declaredName? line).or (fieldName? line)).getD []

end DoxygenMarkdown.Bindings

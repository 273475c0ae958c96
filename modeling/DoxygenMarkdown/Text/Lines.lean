import DoxygenMarkdown.Text.Blank

/-!
# Lines

A line feed, and no other character, ends a line. There are two ways to cut a text at its line
feeds, and both lose nothing:

* `lines` drops the line feeds, so a text has one more line than it has line feeds
  (`unlines_lines`);
* `fullLines` leaves each line feed at the end of its line, so pieces of a text can be put together
  again by writing them one after the other (`flatten_fullLines`).
-/

namespace DoxygenMarkdown.Text

/-- What stands between the line feeds of a text. -/
def lines (t : Text) : List Text := t.splitOn '\n'

/-- Lines written one below the other. -/
def unlines (ls : List Text) : Text := List.intercalate ['\n'] ls

/-- Cutting a text into lines loses nothing. -/
@[simp] theorem unlines_lines (t : Text) : unlines (lines t) = t := List.intercalate_splitOn '\n'

/-- Lines are found again after they were written one below the other. -/
theorem lines_unlines {ls : List Text} (hne : ls ≠ []) (h : ∀ l ∈ ls, '\n' ∉ l) :
    lines (unlines ls) = ls := List.splitOn_intercalate '\n' h hne

/-- Put a character in front of the first of some pieces. -/
def consFirst (c : Char) : List Text → List Text
  | [] => [[c]]
  | l :: ls => (c :: l) :: ls

/-- The lines of a text, each with the line feed that ends it. -/
def fullLines : Text → List Text
  | [] => []
  | c :: t => if c = '\n' then ['\n'] :: fullLines t else consFirst c (fullLines t)

/-- The lines with their line feeds are the text. -/
@[simp] theorem flatten_fullLines (t : Text) : (fullLines t).flatten = t := by
  induction t with
  | nil => rfl
  | cons c t ih =>
    by_cases h : c = '\n'
    · simp [fullLines, h, ih]
    · cases e : fullLines t with
      | nil => simp_all [fullLines, consFirst]
      | cons l ls => simp_all [fullLines, consFirst]

/-- A line without the line feed that ends it, if one does. -/
def withoutBreak (l : Text) : Text := l.dropEndWhile (· == '\n')

/-- The line feed that ends a line, if one does. -/
def lineBreak (l : Text) : Text := if endsWith l ['\n'] then ['\n'] else []

/-- Cut the line feeds off the end of a text. -/
def trimEndBreaks (t : Text) : Text := t.dropEndWhile (· == '\n')

/-- Indent every line but the first by `n` spaces. -/
def hang (n : Nat) (t : Text) : Text :=
  t.flatMap fun c => if c = '\n' then '\n' :: List.replicate n ' ' else [c]

/-- Drop each carriage return that stands before a line feed. -/
def dropReturns : Text → Text
  | [] => []
  | '\r' :: '\n' :: t => '\n' :: dropReturns t
  | c :: t => c :: dropReturns t

/-- Read the three ways to end a line, a carriage return, a line feed or both in this order, as one
line feed. -/
def unifyBreaks : Text → Text
  | [] => []
  | '\r' :: '\n' :: t => '\n' :: unifyBreaks t
  | c :: t => (if c = '\r' then '\n' else c) :: unifyBreaks t

end DoxygenMarkdown.Text

import DoxygenMarkdown.Text.Lines

/-!
# Cutting blocks out of a page

A page is gone through line by line. Where a block begins, as many lines as it has are put aside,
and after them the search goes on; every other line is left as it is.

`cut` is told how to find a block at the start of some lines. It is recursive on the lines, and
counts those that a block before has taken.
-/

namespace DoxygenMarkdown.Site

/-- A line of a page, or a block of several. -/
inductive Part (β : Type) where
  | line (l : Text)
  | block (b : β)
deriving DecidableEq, Repr

/-- Cut blocks out of lines, after the first `taken` of them. `find?` finds a block at the start of
lines, and the number of lines after the first that it has. -/
def cut {β : Type} (find? : List Text → Option (β × Nat)) :
    (taken : Nat) → List Text → List (Part β)
  | _, [] => []
  | taken + 1, _ :: ls => cut find? taken ls
  | 0, l :: ls =>
    match find? (l :: ls) with
    | some (b, more) => .block b :: cut find? more ls
    | none => .line l :: cut find? 0 ls

end DoxygenMarkdown.Site

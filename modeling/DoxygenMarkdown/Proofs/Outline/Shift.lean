import DoxygenMarkdown.Proofs.Fences.Marks
import DoxygenMarkdown.Proofs.Outline

/-!
# Items that are moved to the right

An item is written as it is, wherever it stands: further right, all its lines have that many more
spaces before them and nothing else changes (`Outline.unlines_itemLines_add`). That includes the
lines of a text of several lines, which are indented on their own, behind the width of the bullet.
If they were indented less than the bullet, Markdown would cut a block of code in an item off from
it, and if only the first line of each item was moved, that would happen at some depths and not at
others.

No line is added and none is lost: there are as many as the texts of all nodes have together.
-/

namespace DoxygenMarkdown

theorem indentLine_add (m n : Nat) (l : Text) :
    indentLine (m + n) l = indentLine n (indentLine m l) := by
  rw [indentLine, indentLine, indentLine, Nat.add_comm, List.replicate_add, List.append_assoc]

theorem bulletLine_add (m n : Nat) (l : Text) :
    bulletLine (m + n) l = indentLine n (bulletLine m l) := indentLine_add m n _

namespace Outline

mutual

/-- The lines of an item further right are its lines, indented. -/
theorem flatMap_lines_itemLines_add (m n : Nat) :
    (o : Outline) → (itemLines (m + n) o).flatMap Text.lines =
      ((itemLines m o).flatMap Text.lines).map (indentLine n)
  | ⟨top, sub⟩ => by
    obtain ⟨l, ls, hl⟩ := Text.lines_eq_cons top
    have hhung : ls.map (indentLine (m + n + 2)) =
        (ls.map (indentLine (m + 2))).map (indentLine n) := by
      rw [List.map_map, Nat.add_right_comm]
      exact List.map_congr_left fun l _ => indentLine_add (m + 2) n l
    have hsub := flatMap_lines_listLines_add (m + 2) n sub
    rw [Nat.add_right_comm] at hsub
    rw [flatMap_lines_itemLines (m + n) hl, flatMap_lines_itemLines m hl, bulletLine_add, hhung,
      hsub, List.map_cons, List.map_append]

/-- And so are the lines of a list. -/
theorem flatMap_lines_listLines_add (m n : Nat) :
    (os : List Outline) → (listLines (m + n) os).flatMap Text.lines =
      ((listLines m os).flatMap Text.lines).map (indentLine n)
  | [] => by
    rw [listLines, listLines]
    rfl
  | o :: os => by
    rw [listLines, listLines, List.flatMap_append, List.flatMap_append, List.map_append,
      flatMap_lines_itemLines_add m n o, flatMap_lines_listLines_add m n os]

end

mutual

theorem textLines_eq_flatMap : (o : Outline) → o.textLines = o.texts.flatMap Text.lines
  | ⟨top, sub⟩ => by rw [textLines, texts, List.flatMap_cons, listTextLines_eq_flatMap sub]

theorem listTextLines_eq_flatMap :
    (os : List Outline) → listTextLines os = (listTexts os).flatMap Text.lines
  | [] => by
    rw [listTextLines, listTexts]
    rfl
  | o :: os => by
    rw [listTextLines, listTexts, List.flatMap_append, textLines_eq_flatMap o,
      listTextLines_eq_flatMap os]

end

theorem lines_unlines_itemLines (m : Nat) (o : Outline) :
    (Text.unlines (o.itemLines m)).lines = (o.itemLines m).flatMap Text.lines :=
  Text.lines_unlines_flatMap (by rw [itemLines_eq]; exact List.cons_ne_nil _ _)

/-- **An item further right is only moved.** All its lines get as many spaces before them as it is
moved by, and there are as many lines as the texts of its nodes have. -/
theorem unlines_itemLines_add (m n : Nat) (o : Outline) :
    Text.unlines (o.itemLines (m + n)) =
      Text.unlines ((Text.unlines (o.itemLines m)).lines.map (List.replicate n ' ' ++ ·)) ∧
    (Text.unlines (o.itemLines m)).lines.length = (o.texts.map fun t => t.lines.length).sum := by
  constructor
  · calc Text.unlines (o.itemLines (m + n))
        = Text.unlines ((o.itemLines (m + n)).flatMap Text.lines) := by
          rw [← lines_unlines_itemLines, Text.unlines_lines]
      _ = Text.unlines (((o.itemLines m).flatMap Text.lines).map (indentLine n)) := by
          rw [flatMap_lines_itemLines_add]
      _ = Text.unlines ((Text.unlines (o.itemLines m)).lines.map (List.replicate n ' ' ++ ·)) := by
          rw [lines_unlines_itemLines]
          rfl
  · calc (Text.unlines (o.itemLines m)).lines.length
        = o.textLines.length := by
          rw [lines_unlines_itemLines, (forall₂_itemLines m o).length_eq]
      _ = (o.texts.map fun t => t.lines.length).sum := by
          rw [textLines_eq_flatMap, List.length_flatMap]

/-- A block of code in an item of an item. -/
example : Text.unlines ((Outline.mk "a".toList [.leaf "```\nb\n```".toList]).itemLines 1) =
    " - a\n   - ```\n     b\n     ```".toList := by decide

end Outline

end DoxygenMarkdown

import DoxygenMarkdown.Proofs.Comment.Settled

/-!
# Blank lines separate

Two comments that are written below each other with a blank line between them say what each of them
says by itself, one after the other (`elements_append_blankLine`). This is what lets a comment be
read paragraph by paragraph: indented lines, bullets, and groups right of a blank line never reach
for what stands left of it, and neither does an error.

A blank line settles the state, unless code is open: there it is a line of code. So the one
condition is that the first comment closes its code.
-/

namespace DoxygenMarkdown.Comment

/-- **A blank line separates.** The elements of two comments with a blank line between them are
those of the first and then those of the second. If one of the two cannot be read, its error is the
error of the whole, the first one's before the second one's. -/
theorem elements_append_blankLine {a : Text} (hr : a.getLast? ≠ some '\r') (hc : ClosesCode a)
    (b : Text) :
    elements (a ++ "\n\n".toList ++ b) = do
      let es ← elements a
      let fs ← elements b
      return es ++ fs := by
  have htext : a ++ "\n\n".toList ++ b = a ++ '\n' :: ([] ++ '\n' :: b) := by simp
  have hlines : sourceLines (a ++ "\n\n".toList ++ b) = sourceLines a ++ [] :: sourceLines b := by
    rw [htext, sourceLines_append_break hr, sourceLines_append_break (by decide)]
    rfl
  rcases hs : stateAfter a with e | s
  · -- the error of the first comment comes before anything else
    rw [elements_of_prefix_error hlines hs, elements_of_error hs]
    rfl
  · have hcode : s.code = none := hc s hs
    have hread : readLines {} (sourceLines a ++ [[]]) = .ok (s.push .separator) := by
      rw [readLines_append_of_ok hs, readLines_cons_of_ok (State.step_nil hcode)]
      rfl
    have hfinish : s.finish = (s.push .separator).elements.reverse := by
      rw [State.finish_of_code_eq_none hcode]
      exact List.reverse_cons.symm
    rw [elements_of_settled (hlines.trans (List.append_cons _ _ _)) hread
      (State.settled_push_separator hcode), elements_of_ok hs, hfinish]
    rcases elements b with e | fs <;> rfl

/-- A bullet after a blank line is not below the line before it, although it is indented like the
bullet there. -/
theorem elements_list_blankLine_bullet :
    elements ("List:\n  - one".toList ++ "\n\n".toList ++ "  - two".toList) =
      .ok [.plain ⟨"List:".toList, [.leaf "one".toList]⟩, .separator,
        .plain (.leaf "- two".toList), .separator] :=
  (elements_append_blankLine (by decide) (by decide) "  - two".toList).trans rfl

end DoxygenMarkdown.Comment

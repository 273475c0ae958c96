import DoxygenMarkdown.Proofs.Text.Blank
import DoxygenMarkdown.Proofs.Text.Lines
import DoxygenMarkdown.Site.FencedBlock
import Mathlib.Data.List.TakeDrop

/-!
# A fenced block is found as it was written

A comment is written as a block between two fences, with every line indented (`CommentBlock.text`).
Going through a page that begins with this block cuts out the block and nothing else (`cut_text`),
whatever follows it: its end is the first line that closes it, if no line of the comment is a fence
by itself (`closes_bodyLine`). The block that is found has the comment without the indentation, and
one line feed more (`comment_found`).
-/

namespace DoxygenMarkdown.Site

open Text (EndsLine)

section Cut

variable {β : Type} {find? : List Text → Option (β × Nat)}

/-- A block takes the lines that it stands on. -/
theorem cut_of_find? {l : Text} {ls : List Text} {b : β} {more : Nat}
    (h : find? (l :: ls) = some (b, more)) :
    cut find? 0 (l :: ls) = .block b :: cut find? more ls := by
  rw [cut, h]

/-- A line on which no block begins stays a line. -/
theorem cut_of_none {l : Text} {ls : List Text} (h : find? (l :: ls) = none) :
    cut find? 0 (l :: ls) = .line l :: cut find? 0 ls := by
  rw [cut, h]

/-- Lines that a block has taken are passed over. -/
theorem cut_taken (find? : List Text → Option (β × Nat)) (ls ms : List Text) :
    cut find? ls.length (ls ++ ms) = cut find? 0 ms := by
  induction ls with
  | nil => rfl
  | cons l ls ih => exact ih

/-- What is below some lines does not matter for them if no block among them reaches further, and
the search goes on below as if it began there. -/
theorem cut_append {ms : List Text}
    (happend : ∀ l ls, find? (l :: (ls ++ ms)) = find? (l :: ls))
    (hreach : ∀ {l ls b more}, find? (l :: ls) = some (b, more) → more ≤ ls.length)
    {taken : Nat} {ls : List Text} (htaken : taken ≤ ls.length) :
    cut find? taken (ls ++ ms) = cut find? taken ls ++ cut find? 0 ms := by
  induction ls generalizing taken with
  | nil =>
    rw [List.length_nil, Nat.le_zero] at htaken
    rw [htaken]
    rfl
  | cons l ls ih =>
    cases taken with
    | succ taken => exact ih (Nat.le_of_succ_le_succ htaken)
    | zero =>
      have hfind := happend l ls
      rw [List.cons_append]
      cases h : find? (l :: ls) with
      | none =>
        rw [cut_of_none (hfind.trans h), cut_of_none h, ih (Nat.zero_le _), List.cons_append]
      | some found =>
        obtain ⟨b, more⟩ := found
        rw [cut_of_find? (hfind.trans h), cut_of_find? h, ih (hreach h), List.cons_append]

end Cut

/-- With a label of one line, a block is opened by one line. -/
theorem FencedBlock.find?_cons {label : Text} (hlabel : '\n' ∉ label) (l : Text)
    (ls : List Text) :
    find? label (l :: ls) =
      match opening? label [l] with
      | none => none
      | some indent =>
        match ls.span (!closes indent ·) with
        | (_, []) => none
        | (body, closing :: _) => some (⟨indent, [l], body, closing⟩, 1 + body.length) := by
  have hheight : label.lines.length = 1 := by
    rw [Text.lines_of_notMem hlabel, List.length_singleton]
  rw [find?, hheight]
  rfl

/-- A comment, and the indentation of the block that it is written in. -/
structure CommentBlock where
  indent : Text
  comment : Text
deriving DecidableEq, Repr

namespace CommentBlock

/-- The line that opens the block. -/
def opening (label : Text) (b : CommentBlock) : Text := b.indent ++ (FencedBlock.fence ++ label)

/-- The line that closes the block. -/
def closing (b : CommentBlock) : Text := b.indent ++ FencedBlock.fence

/-- The lines of the comment, indented. -/
def bodyLines (b : CommentBlock) : List Text :=
  b.comment.lines.map fun l => if l.isEmpty then l else b.indent ++ l

/-- The block as it is written in a page. -/
def text (label : Text) (b : CommentBlock) : Text :=
  Text.unlines [b.opening label, FencedBlock.indentLines b.indent b.comment, b.closing]

/-- A block that is indented by spaces and tabs, and in which no line of the comment is a fence with
nothing but spaces and tabs behind it. -/
structure IsWellFormed (b : CommentBlock) : Prop where
  indent : ∀ c ∈ b.indent, isIndent c = true
  comment : ∀ l ∈ b.comment.lines, Text.dropEndWhile isIndent l ≠ FencedBlock.fence

/-- The block as it is found in a page. -/
def found (label ending : Text) (b : CommentBlock) : FencedBlock where
  indent := b.indent
  opening := [b.opening label ++ ['\n']]
  body := b.bodyLines.map (· ++ ['\n'])
  closing := b.closing ++ ending

variable {label : Text} {b : CommentBlock}

theorem text_eq (label : Text) (b : CommentBlock) :
    b.text label =
      b.opening label ++ '\n' :: (Text.unlines b.bodyLines ++ '\n' :: b.closing) := by
  rw [text, Text.unlines_cons (by simp), Text.unlines_cons (by simp), Text.unlines_singleton]
  rfl

/-- Even an empty comment has a line. -/
theorem bodyLines_ne_nil (b : CommentBlock) : b.bodyLines ≠ [] := fun h =>
  Text.lines_ne_nil b.comment (List.map_eq_nil_iff.1 h)

theorem withoutIndent_nil (indent : Text) : FencedBlock.withoutIndent indent [] = [] := by
  cases indent <;> rfl

namespace IsWellFormed

variable (hb : b.IsWellFormed)
include hb

theorem break_notMem_indent : '\n' ∉ b.indent := fun h => absurd (hb.indent _ h) (by decide)

theorem break_notMem_opening (hlabel : '\n' ∉ label) : '\n' ∉ b.opening label := by
  have hfence : '\n' ∉ FencedBlock.fence := by decide
  simp [opening, hb.break_notMem_indent, hfence, hlabel]

theorem break_notMem_closing : '\n' ∉ b.closing := by
  have hfence : '\n' ∉ FencedBlock.fence := by decide
  simp [closing, hb.break_notMem_indent, hfence]

theorem break_notMem_bodyLines : ∀ l ∈ b.bodyLines, '\n' ∉ l := by
  intro l hl
  obtain ⟨k, hk, rfl⟩ := List.mem_map.1 hl
  have hbreak : '\n' ∉ k := Text.break_notMem_of_mem_lines hk
  split
  · exact hbreak
  · rw [List.mem_append, not_or]
    exact ⟨hb.break_notMem_indent, hbreak⟩

/-! ## The first and the last line -/

/-- The line that opens a block tells how far it is indented. -/
theorem opening?_opening (label : Text) :
    FencedBlock.opening? label [b.opening label ++ ['\n']] = some b.indent := by
  have hline : b.opening label ++ ['\n'] =
      b.indent ++ (FencedBlock.fence ++ (label ++ ['\n'])) := by simp [opening]
  have hhead : ∀ c ∈ (FencedBlock.fence ++ (label ++ ['\n'])).head?, isIndent c = false := by
    simp [FencedBlock.fence, isIndent]
  obtain ⟨htake, hdrop⟩ := Text.span_append hb.indent hhead
  have hlabel : FencedBlock.isLabel label label = true := by
    cases label with
    | nil => rfl
    | cons c t => rw [FencedBlock.isLabel, Text.after?_self]; rfl
  rw [FencedBlock.opening?, List.flatten_singleton, hline, htake, hdrop, Text.after?_append]
  simp only [Text.endsWith_append, List.dropLast_concat, hlabel, Bool.and_self, if_true]

/-- The line that closes a block is found, however it ends. -/
theorem closes_closing {ending rest : Text} (hend : EndsLine ending rest) :
    FencedBlock.closes b.indent (b.closing ++ ending) = true := by
  rw [FencedBlock.closes, Text.withoutBreak_append hb.break_notMem_closing hend, closing,
    Text.after?_self]
  rfl

/-- A fence with blanks behind it is all that would close a block. -/
theorem closes_bodyLine {l : Text} (hl : l ∈ b.bodyLines) :
    FencedBlock.closes b.indent (l ++ ['\n']) = false := by
  rw [FencedBlock.closes, Text.withoutBreak_append (hb.break_notMem_bodyLines l hl) (.lineFeed [])]
  cases hafter : Text.after? (b.indent ++ FencedBlock.fence) l with
  | none => rfl
  | some rest =>
    rw [Text.after?_eq_some_iff, List.append_assoc] at hafter
    obtain ⟨k, hk, rfl⟩ := List.mem_map.1 hl
    have hfence : k = FencedBlock.fence ++ rest := by
      split at hafter
      · next hempty =>
        rw [List.isEmpty_iff.1 hempty] at hafter
        simp [FencedBlock.fence] at hafter
      · exact List.append_cancel_left hafter
    refine Bool.eq_false_iff.2 fun hall => hb.comment k hk ?_
    have hrev : ∀ c ∈ rest.reverse, isIndent c = true := fun c hc =>
      List.all_eq_true.1 hall c (List.mem_reverse.1 hc)
    rw [hfence, Text.dropEndWhile, List.reverse_append, List.dropWhile_append_of_pos hrev]
    rfl

/-! ## The whole block -/

/-- The lines of a block are its opening line, those of its comment, and its closing line. -/
theorem fullLines_text (hlabel : '\n' ∉ label) {ending rest : Text} (hend : EndsLine ending rest) :
    Text.fullLines (b.text label ++ (ending ++ rest)) =
      (b.opening label ++ ['\n']) ::
        (b.bodyLines.map (· ++ ['\n']) ++ (b.closing ++ ending) :: Text.fullLines rest) := by
  have hclosing : b.closing ++ ending ≠ [] := by simp [closing, FencedBlock.fence]
  rw [text_eq, List.append_assoc, List.cons_append, List.append_assoc, List.cons_append,
    Text.fullLines_append_break (hb.break_notMem_opening hlabel),
    Text.fullLines_unlines_append b.bodyLines_ne_nil hb.break_notMem_bodyLines,
    Text.fullLines_append hb.break_notMem_closing hclosing hend]

/-- A block that is written down is found again, with the lines that it takes. -/
theorem find?_text (hlabel : '\n' ∉ label) {ending rest : Text} (hend : EndsLine ending rest) :
    FencedBlock.find? label (Text.fullLines (b.text label ++ (ending ++ rest))) =
      some (b.found label ending, b.bodyLines.length + 1) := by
  have hopen : ∀ l ∈ b.bodyLines.map (· ++ ['\n']), (!FencedBlock.closes b.indent l) = true := by
    intro l hl
    obtain ⟨k, hk, rfl⟩ := List.mem_map.1 hl
    rw [hb.closes_bodyLine hk, Bool.not_false]
  have hclose : (!FencedBlock.closes b.indent (b.closing ++ ending)) = false := by
    rw [hb.closes_closing hend, Bool.not_true]
  rw [hb.fullLines_text hlabel hend, FencedBlock.find?_cons hlabel, hb.opening?_opening label]
  -- the body reaches up to the closing line, the first one that closes the block
  simp only [List.span_eq_takeWhile_dropWhile]
  rw [List.takeWhile_append_of_pos hopen, List.dropWhile_append_of_pos hopen,
    List.takeWhile_cons, List.dropWhile_cons, hclose]
  simp [found, Nat.add_comm]

/-- The indentation of a block is taken away again. -/
theorem comment_found (label ending : Text) :
    (b.found label ending).comment = b.comment ++ ['\n'] := by
  have hlines : Text.lines (b.bodyLines.map (· ++ ['\n'])).flatten = b.bodyLines ++ [[]] := by
    rw [Text.flatten_map_break b.bodyLines_ne_nil, Text.lines_append_break,
      Text.lines_unlines b.bodyLines_ne_nil hb.break_notMem_bodyLines]
    rfl
  have hline : ∀ l ∈ b.comment.lines, FencedBlock.withoutIndent b.indent
      (if l.isEmpty then l else b.indent ++ l) = l := by
    intro l _
    cases l with
    | nil => exact withoutIndent_nil b.indent
    | cons c l =>
      rw [List.isEmpty_cons, if_neg Bool.false_ne_true, FencedBlock.withoutIndent,
        Text.after?_append]
      rfl
  have hbody : b.bodyLines.map (FencedBlock.withoutIndent b.indent) = b.comment.lines := by
    rw [bodyLines, List.map_map]
    exact (List.map_congr_left hline).trans (List.map_id _)
  rw [FencedBlock.comment, found, hlines, List.map_append, hbody, List.map_singleton,
    withoutIndent_nil, Text.unlines_append (Text.lines_ne_nil b.comment) (List.cons_ne_nil _ _),
    Text.unlines_lines, Text.unlines_singleton]

/-- What was found is written as it was. -/
theorem source_found (label : Text) {ending rest : Text} (hend : EndsLine ending rest) :
    (b.found label ending).source = b.text label := by
  rw [FencedBlock.source, found, Text.withoutBreak_append hb.break_notMem_closing hend,
    Text.flatten_map_break b.bodyLines_ne_nil, text_eq]
  simp

theorem lineBreak_closing {ending rest : Text} (hend : EndsLine ending rest) :
    (b.found label ending).closing.lineBreak = ending :=
  Text.lineBreak_append hb.break_notMem_closing hend

/-- The block is cut out, and what follows it is gone through as if the page began there. -/
theorem cut_text (hlabel : '\n' ∉ label) {ending rest : Text} (hend : EndsLine ending rest) :
    cut (FencedBlock.find? label) 0 (Text.fullLines (b.text label ++ (ending ++ rest))) =
      .block (b.found label ending) :: cut (FencedBlock.find? label) 0 (Text.fullLines rest) := by
  have hfind := hb.find?_text hlabel hend
  have hlength : b.bodyLines.length + 1 =
      (b.bodyLines.map (· ++ ['\n']) ++ [b.closing ++ ending]).length := by simp
  rw [hb.fullLines_text hlabel hend] at hfind ⊢
  rw [cut_of_find? hfind, List.append_cons, hlength, cut_taken]

end IsWellFormed

end CommentBlock

end DoxygenMarkdown.Site

import DoxygenMarkdown.Proofs.Bindings.Cut
import DoxygenMarkdown.Proofs.Bindings.Literal
import Mathlib.Data.List.Forall2

/-!
# A file is cut without loss

The segments of a file of bindings hold all its lines, in order (`unlines_linesOf_segments`). Which
lines belong to runs is decided by how they are spelled alone: every line of a run is spelled as a
doc attribute and no other line is, and a run is never followed by another, so it has all the
attributes that stand below each other. What a run says is found in these lines, and its number is
where they begin: **`isSegmentation_segments`**.

That segments are a cut carries all of this but the numbers. These come from the uniqueness of cuts:
the segments of lines are found again from their own lines, with every run numbered by its first
line, so the numbers were right before.
-/

namespace DoxygenMarkdown.Bindings

/-- A run says what its lines say, and stands below as many lines as are given. -/
structure DocRun.IsAt (r : DocRun) (above : Nat) : Prop where
  line_eq : r.line = above + 1
  source_ne_nil : r.source ≠ []
  indent_eq : r.indent = (r.source.headD []).takeWhile isBlank
  comment_eq : ∃ ds ts, List.Forall₂ DocLine.Spells ds r.source ∧
    List.Forall₂ (fun d t => Says d.body t) ds ts ∧ r.comment = Text.unlines ts

/-- Segments are what a text is cut into. -/
structure IsSegmentation (t : Text) (ss : List Segment) : Prop where
  lossless : Text.unlines (Segment.linesOf ss) = t
  other : ∀ line, .other line ∈ ss → ∀ d, ¬ DocLine.Spells d line
  run : ∀ above r below, ss = above ++ .run r :: below → r.IsAt (Segment.linesOf above).length
  apart : ∀ above r r' below, ss ≠ above ++ .run r :: .run r' :: below

namespace Segment

variable {above below ss : List Segment} {r : DocRun}

theorem IsCut.of_append (h : IsCut (above ++ ss)) : IsCut ss := by
  induction above with
  | nil => exact h
  | cons s above ih =>
    cases h with
    | other hline hss => exact ih hss
    | run hr hhead hss => exact ih hss

theorem IsCut.read?_eq_none {line : Text} (h : IsCut ss) (hmem : .other line ∈ ss) :
    DocLine.read? line = none := by
  obtain ⟨above, below, rfl⟩ := List.append_of_mem hmem
  cases h.of_append with
  | other hline hss => exact hline

/-- Where segments are numbered, a run has the number of its first line. -/
theorem line_of_number_eq {n : Nat}
    (h : number n (above ++ run r :: below) = above ++ run r :: below) :
    r.line = n + (linesOf above).length := by
  induction above generalizing n with
  | nil =>
    have hrun : ({ r with line := n } : DocRun) = r := run.inj (List.cons.inj h).1
    rw [← hrun]
    rfl
  | cons s above ih =>
    rw [linesOf_cons, List.length_append]
    rcases s with line | r'
    · rw [ih (List.cons.inj h).2, source, List.length_singleton]
      omega
    · rw [ih (List.cons.inj h).2, source]
      omega

end Segment

theorem unlines_linesOf_segments (t : Text) : Text.unlines (Segment.linesOf (segments t)) = t := by
  rw [segments, Segment.linesOf_ofLines, Text.unlines_lines]

/-- The numbers of runs are those of their first lines. -/
theorem number_segments (t : Text) : Segment.number 1 (segments t) = segments t := by
  have hcut : Segment.IsCut (segments t) := Segment.isCut_ofLines 1 t.lines
  rw [← Segment.ofLines_linesOf hcut 1, segments, Segment.linesOf_ofLines]

/-- Lines that are read as doc attributes are spelled as these. -/
theorem forall₂_spells {ls : List Text} {ds : List DocLine}
    (h : ls.map DocLine.read? = ds.map some) (hbreak : ∀ l ∈ ls, '\n' ∉ l) :
    List.Forall₂ DocLine.Spells ds ls := by
  induction ds generalizing ls with
  | nil =>
    obtain rfl := List.map_eq_nil_iff.1 h
    exact .nil
  | cons d ds ih =>
    obtain ⟨l, ls, rfl, hl, hls⟩ := List.map_eq_cons_iff.1 h
    rw [List.forall_mem_cons] at hbreak
    exact .cons ((DocLine.read?_eq_some_iff hbreak.1).1 hl) (ih hls hbreak.2)

/-- What the bodies of doc attributes say is what they are decoded as. -/
theorem forall₂_says {ds : List DocLine} {ls : List Text}
    (h : List.Forall₂ DocLine.Spells ds ls) :
    List.Forall₂ (fun d t => Says d.body t) ds (ds.map fun d => decodeBody d.body) := by
  induction h with
  | nil => exact .nil
  | cons hd _ ih =>
    obtain ⟨ps, hbody⟩ := hd.body
    exact .cons hbody.says_decodeBody ih

theorem DocRun.Reads.isAt {r : DocRun} {d : DocLine} {ds : List DocLine} {below : List Text}
    (hr : r.Reads d ds below) (h : ∀ l ∈ r.source, '\n' ∉ l) {above : Nat}
    (hline : r.line = above + 1) : r.IsAt above := by
  obtain ⟨l, ls, hsource, hl, -⟩ := List.map_eq_cons_iff.1 hr.source_eq
  have hspells := forall₂_spells hr.source_eq h
  refine ⟨hline, ?_, ?_, d :: ds, _, hspells, forall₂_says hspells, hr.comment_eq⟩
  · rw [hsource]
    exact List.cons_ne_nil l ls
  · rw [hr.indent_eq, DocLine.indent_of_read? hl, hsource, List.headD_cons]

/-- **A file is cut without loss into lines and runs that are as long as they can be.** -/
theorem isSegmentation_segments (t : Text) : IsSegmentation t (segments t) := by
  have hcut : Segment.IsCut (segments t) := Segment.isCut_ofLines 1 t.lines
  have hbreak : ∀ l ∈ Segment.linesOf (segments t), '\n' ∉ l := by
    rw [segments, Segment.linesOf_ofLines]
    exact fun l hl => Text.break_notMem_of_mem_lines hl
  constructor
  · exact unlines_linesOf_segments t
  · intro line hline d hd
    have hnone := hcut.read?_eq_none hline
    rw [hd.read?_eq] at hnone
    cases hnone
  · intro above r below hss
    have hnumber := number_segments t
    rw [hss] at hcut hbreak hnumber
    have hline := Segment.line_of_number_eq hnumber
    rw [Segment.linesOf, List.flatMap_append, List.forall_mem_append, List.flatMap_cons,
      List.forall_mem_append] at hbreak
    cases hcut.of_append with
    | run hr hhead hbelow => exact hr.isAt hbreak.2.1 (hline.trans (Nat.add_comm _ _))
  · intro above r r' below hss
    rw [hss] at hcut
    cases hcut.of_append with
    | run hr hhead hbelow => exact absurd (hhead _ rfl) (Option.some_ne_none r')

end DoxygenMarkdown.Bindings

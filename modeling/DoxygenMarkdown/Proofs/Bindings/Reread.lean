import DoxygenMarkdown.Bindings.Conversion
import DoxygenMarkdown.Proofs.Bindings.Cut
import DoxygenMarkdown.Proofs.Bindings.DocLine

/-!
# A converted file is read back

What a file of bindings says after it was converted is known from what it said before, without
reading the converted file (`segments_text_convert`). Lines between runs are there as they were, and
so are runs that could not be read. A run whose comment says nothing is gone. Every other run is one
run that documents the same item at the same indentation, and its comment is the Markdown
(`DocRun.reread?`).

The proof rests on the uniqueness of cuts: it is enough that the converted segments are a cut.

* A converted run reads the doc attributes that were written for it (`DocRun.Reads.reread`).
* Runs do not come to touch where another run vanishes, because that run touched neither of them.
* The item below a run is the same, because whoever looks for it passes over all doc attributes,
  however many of them there are (`itemBelow_filterMap_reread?`).
-/

namespace DoxygenMarkdown.Bindings

/-- A text without the blanks at the ends of its lines. -/
def trimEachLine (t : Text) : Text := Text.unlines (t.lines.map Text.trim)

/-- What becomes of a run when its file is converted, if anything does. -/
def DocRun.reread? (trimLines : Bool) (r : DocRun) : Option DocRun :=
  match renderComment 1 r.comment with
  | .error _ => some r
  | .ok rendering =>
    let text := rendering.text.trimEndBreaks
    if text.isEmpty then none
    else
      let comment := if trimLines then trimEachLine text else text
      some { r with
        comment := comment
        source := comment.lines.map (DocLine.write r.indent) }

/-- What becomes of a segment when its file is converted, if anything does. -/
def Segment.reread? (trimLines : Bool) : Segment → Option Segment
  | other line => some (other line)
  | run r => (r.reread? trimLines).map run

theorem lines_trimEachLine (t : Text) : (trimEachLine t).lines = t.lines.map Text.trim := by
  refine Text.lines_unlines ?_ fun l hl => ?_
  · intro h
    exact Text.lines_ne_nil t (List.map_eq_nil_iff.1 h)
  · obtain ⟨k, hk, rfl⟩ := List.mem_map.1 hl
    exact fun h => Text.break_notMem_of_mem_lines hk (Text.mem_of_mem_trim h)

/-! ## The lines of a converted file -/

variable {trimLines : Bool}

/-- What a run becomes: itself where it cannot be read, and otherwise what is written for it. -/
theorem DocRun.reread?_cases {r r' : DocRun} (h : r.reread? trimLines = some r') :
    r' = r ∨ ∃ comment, r' =
      { r with comment := comment, source := comment.lines.map (DocLine.write r.indent) } := by
  rw [DocRun.reread?] at h
  rcases hr : renderComment 1 r.comment with e | rendering
  · rw [hr] at h
    exact .inl (Option.some.inj h).symm
  · rw [hr] at h
    simp only at h
    by_cases htext : rendering.text.trimEndBreaks.isEmpty = true
    · rw [if_pos htext] at h
      cases h
    · rw [if_neg htext] at h
      exact .inr ⟨_, (Option.some.inj h).symm⟩

theorem DocRun.lines_convert (r : DocRun) :
    (r.convert trimLines).lines = (r.reread? trimLines).toList.flatMap DocRun.source := by
  unfold DocRun.convert DocRun.reread?
  rcases renderComment 1 r.comment with e | rendering
  · simp
  · by_cases htext : rendering.text.trimEndBreaks.isEmpty = true
    · simp [htext]
    · cases trimLines with
      | false => simp [htext]
      | true => simp [htext, lines_trimEachLine]

namespace Segment

theorem lines_convert (s : Segment) :
    (s.convert trimLines).lines = linesOf (s.reread? trimLines).toList := by
  rcases s with line | r
  · rfl
  · rw [Segment.convert, DocRun.lines_convert, reread?]
    rcases r.reread? trimLines with _ | r' <;> rfl

/-- The lines of converted segments are the lines of what the segments become. -/
theorem lines_convertSegments (ss : List Segment) :
    (convertSegments trimLines ss).lines = linesOf (ss.filterMap (reread? trimLines)) := by
  induction ss with
  | nil => rfl
  | cons s ss ih =>
    have hcons : (convertSegments trimLines (s :: ss)).lines =
        (s.convert trimLines).lines ++ (convertSegments trimLines ss).lines := rfl
    rw [hcons, ih, lines_convert, List.filterMap_cons]
    rcases s.reread? trimLines with _ | s'
    · rfl
    · simp [linesOf]

end Segment

/-! ## The item below a run -/

theorem itemBelow_cons_congr {ls ms : List Text} (h : itemBelow ls = itemBelow ms) (l : Text) :
    itemBelow (l :: ls) = itemBelow (l :: ms) := by
  rw [itemBelow, itemBelow, h]

namespace DocRun

variable {r r' : DocRun} {d : DocLine} {ds : List DocLine} {below : List Text}

/-- Every line of a run is a doc attribute. -/
theorem Reads.read?_of_mem (hr : r.Reads d ds below) {l : Text} (hl : l ∈ r.source) :
    ∃ d', DocLine.read? l = some d' := by
  have h : DocLine.read? l ∈ (d :: ds).map some := hr.source_eq ▸ List.mem_map_of_mem hl
  obtain ⟨d', -, hd'⟩ := List.mem_map.1 h
  exact ⟨d', hd'.symm⟩

theorem Reads.isAttribute_of_mem (hr : r.Reads d ds below) {l : Text} (hl : l ∈ r.source) :
    isAttribute l = true := by
  obtain ⟨d', hd'⟩ := hr.read?_of_mem hl
  exact DocLine.isAttribute_of_read? hd'

/-- The first line of a run gives the run its indentation. -/
theorem Reads.exists_mem (hr : r.Reads d ds below) :
    ∃ l ∈ r.source, DocLine.read? l = some d := by
  obtain ⟨l, ls, hsource, hl, -⟩ := List.map_eq_cons_iff.1 hr.source_eq
  exact ⟨l, hsource ▸ List.mem_cons_self, hl⟩

/-- A run that was written reads what was written. -/
theorem reads_written (hindent : ∀ c ∈ r.indent, isBlank c = true)
    (hitem : r.item = itemBelow below)
    (comment : Text) :
    ∃ d ds, DocRun.Reads
      { r with comment := comment, source := comment.lines.map (DocLine.write r.indent) }
      d ds below := by
  rcases hlines : comment.lines with _ | ⟨l, ls⟩
  · exact absurd hlines (Text.lines_ne_nil comment)
  · refine ⟨⟨r.indent, encodeBody l⟩, ls.map fun k => ⟨r.indent, encodeBody k⟩, ?_, rfl, ?_, hitem⟩
    · -- every line is read back as it was written
      simp only [List.map_cons, List.map_map, Function.comp_def, DocLine.read?_write hindent]
    · -- so the bodies are the lines of the comment
      calc comment = Text.unlines comment.lines := (Text.unlines_lines comment).symm
        _ = Text.unlines (l :: ls) := by rw [hlines]
        _ = commentOf _ := by
          simp [commentOf, List.map_map, Function.comp_def, decodeBody_encodeBody]

/-- What becomes of a run is a run again, above any lines with the same item below them. -/
theorem Reads.reread (hr : r.Reads d ds below) (h : r.reread? trimLines = some r')
    {below' : List Text} (hbelow : itemBelow below' = itemBelow below) :
    ∃ d' ds', r'.Reads d' ds' below' := by
  have hitem : r.item = itemBelow below' := hr.item_eq.trans hbelow.symm
  rcases DocRun.reread?_cases h with rfl | ⟨comment, rfl⟩
  · exact ⟨d, ds, hr.source_eq, hr.indent_eq, hr.comment_eq, hitem⟩
  · obtain ⟨l, -, hl⟩ := hr.exists_mem
    have hindent : ∀ c ∈ r.indent, isBlank c = true := by
      rw [hr.indent_eq]
      exact DocLine.blank_of_read? hl
    exact reads_written hindent hitem comment

/-- What becomes of a run has no line feed in its lines, because the run has none. -/
theorem Reads.break_notMem_reread (hr : r.Reads d ds below) (hsource : ∀ l ∈ r.source, '\n' ∉ l)
    (h : r.reread? trimLines = some r') : ∀ l ∈ r'.source, '\n' ∉ l := by
  rcases DocRun.reread?_cases h with rfl | ⟨comment, rfl⟩
  · exact hsource
  · intro k hk
    obtain ⟨line, hline, rfl⟩ := List.mem_map.1 hk
    obtain ⟨l, hmem, hl⟩ := hr.exists_mem
    have hindent : '\n' ∉ r.indent := by
      rw [hr.indent_eq, DocLine.indent_of_read? hl]
      exact fun hc => hsource l hmem ((List.takeWhile_prefix _).subset hc)
    exact DocLine.break_notMem_write hindent (Text.break_notMem_of_mem_lines hline)

end DocRun

namespace Segment

/-! ## The converted segments are a cut -/

theorem filterMap_other (line : Text) (ss : List Segment) :
    (other line :: ss).filterMap (reread? trimLines) =
      other line :: ss.filterMap (reread? trimLines) := rfl

theorem filterMap_run_of_none {r : DocRun} (h : r.reread? trimLines = none) (ss : List Segment) :
    (run r :: ss).filterMap (reread? trimLines) = ss.filterMap (reread? trimLines) :=
  List.filterMap_cons_none (by rw [reread?, h]; rfl)

theorem filterMap_run_of_some {r r' : DocRun} (h : r.reread? trimLines = some r')
    (ss : List Segment) :
    (run r :: ss).filterMap (reread? trimLines) = run r' :: ss.filterMap (reread? trimLines) :=
  List.filterMap_cons_some (by rw [reread?, h]; rfl)

/-- No item changes, whatever becomes of the runs above it. -/
theorem itemBelow_filterMap_reread? {ss : List Segment} (h : IsCut ss) :
    itemBelow (linesOf (ss.filterMap (reread? trimLines))) = itemBelow (linesOf ss) := by
  induction h with
  | nil => rfl
  | @other line ss hline hss ih =>
    rw [filterMap_other, linesOf_cons, linesOf_cons]
    exact itemBelow_cons_congr ih line
  | @run r d ds ss hr hhead hss ih =>
    -- the lines of the run, and those that become of it, are passed over
    rw [linesOf_cons, source, itemBelow_append fun l hl => .inr (hr.isAttribute_of_mem hl), ← ih]
    rcases hr' : r.reread? trimLines with _ | r'
    · rw [filterMap_run_of_none hr']
    · obtain ⟨d', ds', hreads⟩ := hr.reread hr' rfl
      rw [filterMap_run_of_some hr', linesOf_cons, source,
        itemBelow_append fun l hl => .inr (hreads.isAttribute_of_mem hl)]

theorem BeginsNoRun.filterMap_reread? {ss : List Segment} (h : BeginsNoRun ss) :
    BeginsNoRun (ss.filterMap (reread? trimLines)) := by
  rcases ss with _ | ⟨line | r, ss⟩
  · exact h
  · rw [filterMap_other]
    intro s hs
    cases hs
    rfl
  · exact absurd (h _ rfl) (Option.some_ne_none r)

/-- What becomes of a cut is a cut. -/
theorem IsCut.filterMap_reread? {ss : List Segment} (h : IsCut ss) :
    IsCut (ss.filterMap (reread? trimLines)) := by
  induction h with
  | nil => exact .nil
  | other hline hss ih =>
    rw [filterMap_other]
    exact .other hline ih
  | @run r d ds ss hr hhead hss ih =>
    rcases hr' : r.reread? trimLines with _ | r'
    · -- the run touched no other, so nothing comes to touch where it was
      rw [filterMap_run_of_none hr']
      exact ih
    · obtain ⟨d', ds', hreads⟩ := hr.reread hr' (itemBelow_filterMap_reread? hss)
      rw [filterMap_run_of_some hr']
      exact .run hreads hhead.filterMap_reread? ih

theorem IsCut.break_notMem_reread {ss : List Segment} (h : IsCut ss)
    (hlines : ∀ l ∈ linesOf ss, '\n' ∉ l) :
    ∀ l ∈ linesOf (ss.filterMap (reread? trimLines)), '\n' ∉ l := by
  induction h with
  | nil => exact hlines
  | @other line ss hline hss ih =>
    rw [linesOf_cons, List.forall_mem_append] at hlines
    rw [filterMap_other, linesOf_cons, List.forall_mem_append]
    exact ⟨hlines.1, ih hlines.2⟩
  | @run r d ds ss hr hhead hss ih =>
    rw [linesOf_cons, List.forall_mem_append] at hlines
    rcases hr' : r.reread? trimLines with _ | r'
    · rw [filterMap_run_of_none hr']
      exact ih hlines.2
    · rw [filterMap_run_of_some hr', linesOf_cons,
        List.forall_mem_append]
      exact ⟨hr.break_notMem_reread hlines.1 hr', ih hlines.2⟩

end Segment

/-- **A converted file is read back.** If anything is left of a file after it was converted, its
segments are what became of the segments before, in the same order and with the runs numbered by
their new first lines. -/
theorem segments_text_convert (trimLines : Bool) {t : Text} (h : (convert trimLines t).lines ≠ []) :
    segments (convert trimLines t).text =
      Segment.number 1 ((segments t).filterMap (Segment.reread? trimLines)) := by
  have hcut : Segment.IsCut (segments t) := Segment.isCut_ofLines 1 t.lines
  have hlines : (convert trimLines t).lines =
      Segment.linesOf ((segments t).filterMap (Segment.reread? trimLines)) :=
    Segment.lines_convertSegments (segments t)
  have hbreaks : ∀ l ∈ (convert trimLines t).lines, '\n' ∉ l := by
    rw [hlines]
    refine hcut.break_notMem_reread fun l hl => ?_
    rw [segments, Segment.linesOf_ofLines] at hl
    exact Text.break_notMem_of_mem_lines hl
  rw [segments, Conversion.text, Text.lines_unlines h hbreaks, hlines]
  exact Segment.ofLines_linesOf hcut.filterMap_reread? 1

/-- A quote and a backslash are read back, a run that says nothing is gone, and a run that cannot be
read moves up by the line that is gone. -/
theorem segments_text_convert_three_runs :
    let t := ("\t#[doc=\" \\\"a\\\\b\"]\nfn f\n#[doc=\"@def\"]\n\n" ++
      "#[doc=\"@param[] \"]\n#[doc=\"@param[x\"]").toList
    (convert true t).lines ≠ [] ∧
      segments (convert true t).text =
        [.run ⟨1, ['\t'], "\"a\\b".toList, "f".toList, ["\t#[doc = \"\\\"a\\\\b\"]".toList]⟩,
          .other "fn f".toList, .other [],
          .run ⟨4, [], "@param[] \n@param[x".toList, [],
            ["#[doc=\"@param[] \"]".toList, "#[doc=\"@param[x\"]".toList]⟩] :=
  ⟨by decide, (segments_text_convert true (by decide)).trans rfl⟩

end DoxygenMarkdown.Bindings

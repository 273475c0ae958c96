import DoxygenMarkdown.Proofs.Bindings.Reread

/-!
# What is written for converted runs

What is not converted stays as it is, and what is written for a converted run is one doc attribute
per line (`Segment.exists_write_of_isConverted`).

Such a line may hold a carriage return, for an escape may stand for one, and then it is cut in two
where the file is read again. Its first half is no doc attribute. But lines that are none are never
made by a conversion, so a file cannot be what its conversion is read as, unless nothing was cut at
all (`text_convert_eq_of_unifyBreaks`).
-/

namespace DoxygenMarkdown.Bindings

variable {trimLines : Bool}

/-! ## What becomes of a segment -/

/-- A run that can be read. It is written anew, even if that changes nothing about it or leaves
nothing of it. -/
def Segment.IsConverted (s : Segment) : Prop :=
  ∃ r rendering, s = run r ∧ renderComment 1 r.comment = .ok rendering

/-- What is not converted stays. -/
theorem Segment.lines_convert_of_not_isConverted {s : Segment} (h : ¬ s.IsConverted) :
    (s.convert trimLines).lines = s.source := by
  rcases s with line | r
  · rfl
  · rw [Segment.convert, DocRun.convert]
    cases hr : renderComment 1 r.comment with
    | error e => rfl
    | ok rendering => exact absurd ⟨r, rendering, rfl, hr⟩ h

/-- What is written for a run is a line of text in a doc attribute. -/
theorem Segment.exists_write_of_isConverted {s : Segment} (h : s.IsConverted) {line : Text}
    (hline : line ∈ (s.convert trimLines).lines) :
    ∃ r t, s = run r ∧ '\n' ∉ t ∧ line = DocLine.write r.indent t := by
  obtain ⟨r, rendering, rfl, hr⟩ := h
  rw [Segment.convert, DocRun.convert, hr] at hline
  obtain ⟨t, ht, rfl⟩ := List.mem_map.1 hline
  have hbreak : '\n' ∉ t := by
    split at ht
    · cases ht
    · exact Text.break_notMem_of_mem_lines ht
  refine ⟨r, if trimLines then t.trim else t, rfl, ?_, rfl⟩
  split
  · exact fun hmem => hbreak (Text.mem_of_mem_trim hmem)
  · exact hbreak

/-- No segment is empty. -/
theorem Segment.IsCut.source_ne_nil {ss : List Segment} (h : IsCut ss) :
    ∀ s ∈ ss, s.source ≠ [] := by
  induction h with
  | nil => exact fun _ h => nomatch h
  | other hline hss ih => exact List.forall_mem_cons.2 ⟨List.cons_ne_nil _ _, ih⟩
  | run hr hhead hss ih =>
    refine List.forall_mem_cons.2 ⟨fun hsource => ?_, ih⟩
    obtain ⟨l, hl, -⟩ := hr.exists_mem
    rw [source] at hsource
    rw [hsource] at hl
    cases hl

theorem convertSegments_cons (s : Segment) (ss : List Segment) :
    (convertSegments trimLines (s :: ss)).lines =
      (s.convert trimLines).lines ++ (convertSegments trimLines ss).lines := rfl

/-! ## Half a doc attribute -/

/-- A body that was written is not closed by any of its own quotes. -/
theorem readBody?_encodeBody_eq_none (t : Text) : readBody? (encodeBody t) = none := by
  induction t with
  | nil => rfl
  | cons c t ih =>
    by_cases hc : c = '\\' ∨ c = '"'
    · rw [encodeBody_cons_of_escaped hc, readBody?, ih]
      rfl
    · obtain ⟨hslash, hquote⟩ := not_or.1 hc
      rw [encodeBody_cons_of_plain hc, readBody?_cons hslash hquote, ih]
      rfl

namespace DocLine

/-- The beginning of a doc attribute, up to somewhere in its literal. -/
def writeOpen (indent t : Text) : Text := indent ++ "#[doc = \"".toList ++ encodeBody t

theorem read?_writeOpen {indent : Text} (h : ∀ c ∈ indent, isBlank c = true) (t : Text) :
    read? (writeOpen indent t) = none := by
  have hstart : Text.trimStart (writeOpen indent t) =
      "#[doc".toList ++ (" = \"".toList ++ encodeBody t) := by
    rw [writeOpen, List.append_assoc, Text.trimStart, List.dropWhile_append_of_pos h]
    rfl
  have hdoc : Text.after? "#[doc".toList (Text.trimStart (writeOpen indent t)) =
      some (" = \"".toList ++ encodeBody t) := Text.after?_eq_some_iff.2 hstart
  rw [read?, hdoc]
  change ((readBody? (encodeBody t)).bind _) = none
  rw [readBody?_encodeBody_eq_none]
  rfl

/-- A doc attribute ends with a bracket. -/
theorem exists_concat_write (indent t : Text) : ∃ u, write indent t = u ++ [']'] := by
  refine ⟨indent ++ "#[doc = \"".toList ++ encodeBody t ++ ['"'], ?_⟩
  rw [write, List.append_assoc _ ['"'] [']']]
  rfl

/-- Where a doc attribute is cut by a carriage return, its first half is none. -/
theorem exists_mem_lines_write {indent t : Text} (hblank : ∀ c ∈ indent, isBlank c = true)
    (hindent : '\n' ∉ indent ∧ '\r' ∉ indent) (ht : '\n' ∉ t) (h : '\r' ∈ write indent t) :
    ∃ k ∈ (Text.unifyBreaks (write indent t)).lines, read? k = none := by
  have hmem : '\r' ∈ t := by
    simp only [write, List.mem_append] at h
    rcases h with ((h | h) | h) | h
    · exact absurd h hindent.2
    · exact absurd h (by decide)
    · exact mem_of_mem_encodeBody (by decide) h
    · exact absurd h (by decide)
  obtain ⟨u, v, rfl, hu⟩ := List.eq_append_cons_of_mem hmem
  have hopen {c : Char} (hc : c ∉ "#[doc = \"".toList) (hslash : c ≠ '\\') (hi : c ∉ indent)
      (hcu : c ∉ u) : c ∉ writeOpen indent u := by
    simp only [writeOpen, List.mem_append, not_or]
    exact ⟨⟨hi, hc⟩, fun hmem => hcu (mem_of_mem_encodeBody hslash hmem)⟩
  have hbreak := hopen (by decide) (by decide) hindent.1 fun hmem =>
    ht (List.mem_append_left _ hmem)
  have hreturn := hopen (by decide) (by decide) hindent.2 hu
  have hcut : write indent (u ++ '\r' :: v) =
      writeOpen indent u ++ '\r' :: (encodeBody v ++ "\"]".toList) := by
    have hbody : encodeBody (u ++ '\r' :: v) = encodeBody u ++ '\r' :: encodeBody v := by
      rw [encodeBody, List.flatMap_append]
      rfl
    rw [write, hbody, writeOpen]
    simp only [List.append_assoc, List.cons_append]
  obtain ⟨rest, hrest⟩ := Text.exists_unifyBreaks_return (encodeBody v ++ "\"]".toList)
  refine ⟨writeOpen indent u, ?_, read?_writeOpen hblank u⟩
  rw [hcut, Text.unifyBreaks_append_of_notMem hreturn, hrest, Text.lines_append_break,
    Text.lines_of_notMem hbreak]
  exact List.mem_cons_self

end DocLine

/-! ## Lines that are no doc attributes -/

/-- The lines that a line is read as. -/
def rereadLines (l : Text) : List Text := (Text.unifyBreaks l).lines

/-- How many lines are no doc attributes. -/
def countOthers (ls : List Text) : Nat := ls.countP (DocLine.read? · = none)

/-- How many lines have a carriage return in them. -/
def countReturns (ls : List Text) : Nat := ls.countP ('\r' ∈ ·)

theorem countReturns_le {ls : List Text}
    (h : ∀ l ∈ ls, '\r' ∈ l → ∃ k ∈ rereadLines l, DocLine.read? k = none) :
    countReturns ls ≤ countOthers (ls.flatMap rereadLines) := by
  induction ls with
  | nil => exact Nat.le_refl 0
  | cons l ls ih =>
    rw [List.forall_mem_cons] at h
    have hls := ih h.2
    rw [countReturns, countOthers] at hls ⊢
    rw [List.countP_cons, List.flatMap_cons, List.countP_append]
    by_cases hl : '\r' ∈ l
    · obtain ⟨k, hk, hread⟩ := h.1 hl
      have hpos : 0 < (rereadLines l).countP (DocLine.read? · = none) :=
        List.countP_pos_iff.2 ⟨k, hk, decide_eq_true hread⟩
      rw [if_pos (decide_eq_true hl)]
      omega
    · rw [if_neg (by simpa using hl)]
      omega

/-- The indentation of a run is made of blanks of its first line. -/
theorem DocRun.Reads.blank_indent {r : DocRun} {d : DocLine} {ds : List DocLine}
    {below : List Text} (hr : r.Reads d ds below) : ∀ c ∈ r.indent, isBlank c = true := by
  obtain ⟨l, -, hl⟩ := hr.exists_mem
  rw [hr.indent_eq]
  exact DocLine.blank_of_read? hl

theorem DocRun.Reads.notMem_indent {r : DocRun} {d : DocLine} {ds : List DocLine}
    {below : List Text} (hr : r.Reads d ds below) {c : Char} (h : ∀ l ∈ r.source, c ∉ l) :
    c ∉ r.indent := by
  obtain ⟨l, hmem, hl⟩ := hr.exists_mem
  rw [hr.indent_eq, DocLine.indent_of_read? hl]
  exact fun hc => h l hmem ((List.takeWhile_prefix _).subset hc)

/-- What is written for a run is cut only where it becomes no doc attribute. -/
theorem DocRun.Reads.exists_mem_rereadLines {r : DocRun} {d : DocLine} {ds : List DocLine}
    {below : List Text} (hr : r.Reads d ds below) (h : ∀ l ∈ r.source, '\n' ∉ l ∧ '\r' ∉ l)
    {l : Text} (hl : l ∈ (r.convert trimLines).lines) (hreturn : '\r' ∈ l) :
    ∃ k ∈ rereadLines l, DocLine.read? k = none := by
  by_cases hs : (Segment.run r).IsConverted
  · obtain ⟨r', t, hr', ht, rfl⟩ := Segment.exists_write_of_isConverted hs hl
    obtain rfl := Segment.run.inj hr'
    exact DocLine.exists_mem_lines_write hr.blank_indent
      ⟨hr.notMem_indent fun l hl => (h l hl).1, hr.notMem_indent fun l hl => (h l hl).2⟩ ht hreturn
  · have hsource := @Segment.lines_convert_of_not_isConverted trimLines _ hs
    rw [Segment.convert, Segment.source] at hsource
    rw [hsource] at hl
    exact absurd hreturn (h l hl).2

theorem rereadLines_of_notMem {l : Text} (h : '\n' ∉ l ∧ '\r' ∉ l) : rereadLines l = [l] := by
  rw [rereadLines, Text.unifyBreaks_of_notMem h.2, Text.lines_of_notMem h.1]

theorem countOthers_append (ls ms : List Text) :
    countOthers (ls ++ ms) = countOthers ls + countOthers ms := List.countP_append

theorem countReturns_append (ls ms : List Text) :
    countReturns (ls ++ ms) = countReturns ls + countReturns ms := List.countP_append

/-- Each carriage return that is written makes for another line that is no doc attribute. -/
theorem countOthers_add_countReturns_le {ss : List Segment} (h : Segment.IsCut ss)
    (hlines : ∀ l ∈ Segment.linesOf ss, '\n' ∉ l ∧ '\r' ∉ l) :
    countOthers (Segment.linesOf ss) + countReturns (convertSegments trimLines ss).lines ≤
      countOthers ((convertSegments trimLines ss).lines.flatMap rereadLines) := by
  induction h with
  | nil => exact Nat.le_refl 0
  | @other line ss hline hss ih =>
    rw [Segment.linesOf_cons, List.forall_mem_append] at hlines
    have hbreak := hlines.1 line List.mem_cons_self
    have hother : (Segment.convert trimLines (.other line)).lines = [line] := rfl
    have hreturns : countReturns [line] = 0 :=
      List.countP_eq_zero.2 (by simpa using hbreak.2)
    have hrest := ih hlines.2
    rw [Segment.linesOf_cons, convertSegments_cons, hother, List.flatMap_append,
      List.flatMap_singleton, rereadLines_of_notMem hbreak, countOthers_append, countOthers_append,
      countReturns_append, hreturns, Segment.source]
    omega
  | @run r d ds ss hr hhead hss ih =>
    rw [Segment.linesOf_cons, List.forall_mem_append] at hlines
    have hothers : countOthers r.source = 0 := by
      refine List.countP_eq_zero.2 fun l hl => ?_
      obtain ⟨d', hd'⟩ := hr.read?_of_mem hl
      simp [hd']
    have hreturns : countReturns (r.convert trimLines).lines ≤
        countOthers ((r.convert trimLines).lines.flatMap rereadLines) :=
      countReturns_le fun l hl => hr.exists_mem_rereadLines hlines.1 hl
    have hrest := ih hlines.2
    rw [Segment.linesOf_cons, convertSegments_cons, List.flatMap_append, countOthers_append,
      countOthers_append, countReturns_append, Segment.source, hothers, Segment.convert]
    omega

/-- Lines are read by themselves, unless one of them ends with a carriage return. -/
theorem lines_unifyBreaks_unlines {ls : List Text} (hne : ls ≠ [])
    (h : ∀ l ∈ ls, l.getLast? ≠ some '\r') :
    (Text.unifyBreaks (Text.unlines ls)).lines = ls.flatMap rereadLines := by
  induction ls with
  | nil => exact absurd rfl hne
  | cons l ls ih =>
    rw [List.forall_mem_cons] at h
    by_cases hls : ls = []
    · rw [hls, Text.unlines_singleton, List.flatMap_singleton, rereadLines]
    · rw [Text.unlines_cons hls, Text.unifyBreaks_append_break h.1, Text.lines_append_break,
        ih hls h.2, List.flatMap_cons, rereadLines]

/-- No line of a converted file ends with a carriage return. -/
theorem getLast?_ne_return {ss : List Segment}
    (hlines : ∀ l ∈ Segment.linesOf ss, '\r' ∉ l) :
    ∀ l ∈ (convertSegments trimLines ss).lines, l.getLast? ≠ some '\r' := by
  induction ss with
  | nil => exact fun _ h => nomatch h
  | cons s ss ih =>
    rw [Segment.linesOf_cons, List.forall_mem_append] at hlines
    rw [convertSegments_cons, List.forall_mem_append]
    refine ⟨fun l hl => ?_, ih hlines.2⟩
    by_cases hs : s.IsConverted
    · obtain ⟨r, t, -, -, rfl⟩ := Segment.exists_write_of_isConverted hs hl
      obtain ⟨u, hu⟩ := DocLine.exists_concat_write r.indent t
      rw [hu, List.getLast?_concat]
      decide
    · rw [Segment.lines_convert_of_not_isConverted hs] at hl
      exact fun hlast => hlines.1 l hl (List.mem_of_getLast? hlast)

/-- **What a conversion is read as is not what was converted, unless it has no carriage returns.**
-/
theorem text_convert_eq_of_unifyBreaks {t : Text}
    (h : Text.unifyBreaks (convert trimLines t).text = t) : (convert trimLines t).text = t := by
  have hreturn : '\r' ∉ t := h ▸ Text.return_notMem_unifyBreaks _
  have hlines : ∀ l ∈ Segment.linesOf (segments t), '\n' ∉ l ∧ '\r' ∉ l := by
    rw [segments, Segment.linesOf_ofLines]
    exact fun l hl => ⟨Text.break_notMem_of_mem_lines hl,
      fun hmem => hreturn (Text.mem_of_mem_lines hl hmem)⟩
  have hcut : Segment.IsCut (segments t) := Segment.isCut_ofLines 1 t.lines
  have hcount := @countOthers_add_countReturns_le trimLines _ hcut hlines
  have hlast := @getLast?_ne_return trimLines _ fun l hl => (hlines l hl).2
  rw [segments, Segment.linesOf_ofLines, ← segments] at hcount
  let out := (convertSegments trimLines (segments t)).lines
  have htext : (convert trimLines t).text = Text.unlines out := rfl
  rw [htext] at h ⊢
  by_cases hne : out = []
  · rw [hne] at h ⊢
    exact h
  have hreread : t.lines = out.flatMap rereadLines := by
    rw [← lines_unifyBreaks_unlines hne hlast, h]
  -- the lines that are no doc attributes are as many as they were, so nothing was cut
  have hnone : countReturns out = 0 := by
    have hle : countOthers t.lines + countReturns out ≤ countOthers (out.flatMap rereadLines) :=
      hcount
    rw [hreread] at hle
    omega
  have hkept : out.flatMap rereadLines = out.flatMap Text.lines := by
    rw [List.flatMap_def, List.flatMap_def]
    refine congrArg List.flatten (List.map_congr_left fun l hl => ?_)
    have hl : '\r' ∉ l := by simpa using List.countP_eq_zero.1 hnone l hl
    rw [rereadLines, Text.unifyBreaks_of_notMem hl]
  calc Text.unlines out = Text.unlines (Text.unlines out).lines := (Text.unlines_lines _).symm
    _ = Text.unlines t.lines := by rw [Text.lines_unlines_flatMap hne, ← hkept, hreread]
    _ = t := Text.unlines_lines t

end DoxygenMarkdown.Bindings

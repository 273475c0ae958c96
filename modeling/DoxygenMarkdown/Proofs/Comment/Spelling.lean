import DoxygenMarkdown.Proofs.Comment.Failure
import Mathlib.Data.List.TakeDrop

/-!
# The marker of a tag does not matter

A known tag at the start of a line may be written with any of the markers, and a comment is read the
same: **`elements_eq_of_respells`**. Two comments are compared line by line (`Respells`). Lines of
code have to be the same, and so has every other line that does not begin with a tag; of a line that
does, only the marker may be another one (`Respelled`).

Both readers of a line have to be followed. What a tagged line says is all that stands behind its
first word, and none of that is read off the marker (`IsTagLine.readLine_congr`). If code opens
further on in the line, the words before it are a line that begins with the same tag
(`IsTagLine.unwords_cons`). So each line is one step for both comments (`State.step_of_isTagLine`),
and they stay together to the end.
-/

namespace DoxygenMarkdown.Comment

/-! ## Lines that begin with a tag -/

/-- What may stand behind a tag: the end of the line, a space, a tab, or a qualifier. -/
def EndsName (rest : Text) : Prop := ∀ c ∈ rest.head?, isIndent c = true ∨ c = '[' ∨ c = '{'

theorem endsName_cons {c : Char} (h : isIndent c = true ∨ c = '[' ∨ c = '{') (rest : Text) :
    EndsName (c :: rest) := fun _ hd => Option.some.inj hd ▸ h

theorem EndsName.of_prefix {rest r : Text} (h : EndsName rest) (hr : r <+: rest) : EndsName r := by
  intro c hc
  obtain ⟨u, rfl⟩ := hr
  refine h c ?_
  rw [List.head?_append, Option.mem_def.1 hc]
  rfl

/-- A line at the margin that begins with a marker and a known tag, in any letter case. The tag for
code is none of these. -/
structure IsTagLine (line : Text) (m : Marker) (t rest : Text) : Prop where
  margin : line.indentation = 0
  start : line.trimStart = m.text ++ t ++ rest
  known : Tag.isKnown t.lower = true
  notCode : t.lower ≠ Tag.code
  ends : EndsName rest

/-- Two lines that differ at most in the marker of the tag that they begin with. -/
def Respelled (line line' : Text) : Prop :=
  ∃ m m' t rest, IsTagLine line m t rest ∧ IsTagLine line' m' t rest

/-- The tokens of a line that begins with a tag, without the blanks around it. -/
theorem scan_trim_tag {line : Text} {m : Marker} {t rest : Text} (ht : IsTagText t)
    (hstart : line.trimStart = m.text ++ t ++ rest) :
    Token.scan line.trim = ⟨.marker, m.text⟩ ::
      ⟨.word, t ++ rest.trimEnd.takeWhile (Token.kindOf · = .word)⟩ ::
        Token.scan (rest.trimEnd.dropWhile (Token.kindOf · = .word)) := by
  have htrim : line.trim = m.text ++ t ++ rest.trimEnd := by
    rw [Text.trim, hstart, Text.trimEnd_append fun c hc =>
      ((Marker.not_blank_of_isTagText m ht).2 c hc).1]
  rw [htrim, scan_tag m ht]

namespace IsTagLine

variable {line : Text} {m : Marker} {t rest : Text}

theorem isTagText (h : IsTagLine line m t rest) : IsTagText t := Tag.isTagText_of_isKnown h.known

theorem endsStem (h : IsTagLine line m t rest) : Marker.EndsStem rest := fun c hc =>
  (h.ends c hc).imp isBlank_of_isIndent id

theorem words_eq (h : IsTagLine line m t rest) :
    line.words = (m.text ++ t ++ rest.takeWhile (!isBlank ·)) ::
      Text.words (rest.dropWhile (!isBlank ·)) := by
  rw [← Text.words_trimStart, h.start, Marker.words_append_of_isTagText m h.isTagText]

theorem leading?_eq (h : IsTagLine line m t rest) : Marker.leading? line = some (m, t) := by
  have hlead := Marker.leading?_append h.isTagText h.endsStem (m := m)
  rw [← h.start] at hlead
  rw [← hlead, Marker.leading?, Marker.leading?, Text.words_trimStart]

/-- What a tagged line says is read off its tag in small letters, and off what stands behind it. -/
theorem readLine_eq (h : IsTagLine line m t rest) :
    readLine line =
      (fun qualifiers => Reading.element (.tagged t.lower qualifiers
        (.leaf (Inline.format (Text.unwords (Text.words (rest.dropWhile (!isBlank ·)))))))) <$>
      if t.lower = "param".toList then
        readDirection ((rest.trimEnd.takeWhile (Token.kindOf · = .word)).dropWhile (· ≠ '['))
      else .ok [] := by
  have htag := h.isTagText
  have hbracket : ∀ c ∈ t, decide (c ≠ '[') = true := fun c hc =>
    decide_eq_true fun heq => (htag.2 c hc).2 (by simp [heq])
  have hends : EndsName rest.trimEnd := h.ends.of_prefix (Text.prefix_dropEndWhile _ _)
  have hstem : Marker.EndsStem rest.trimEnd := fun c hc => (hends c hc).imp isBlank_of_isIndent id
  have hend : EndsTag rest.trimEnd := fun c hc => (hends c hc).imp id fun hc => by
    rcases hc with rfl | rfl <;> decide
  rw [readLine_of_word h.margin (scan_trim_tag htag h.start),
    readTagged_of_known (takeWhile_tag htag hstem hend) h.known h.notCode,
    Marker.dropLeading_of_leading? h.leading?_eq, Inline.format_dropFirstWord, h.words_eq,
    List.dropWhile_append_of_pos hbracket]
  split
  · rcases readDirection _ with e | qualifiers <;> rfl
  · rfl

/-- **What a tagged line says depends neither on its marker nor on the letter case of its tag.** -/
theorem readLine_congr {line' : Text} {m' : Marker} {t' : Text} (h : IsTagLine line m t rest)
    (h' : IsTagLine line' m' t' rest) (ht : t.lower = t'.lower) :
    readLine line = readLine line' := by
  rw [h.readLine_eq, h'.readLine_eq, ht]

/-- The first word of a tagged line opens no code. -/
theorem opensCode_eq_false (h : IsTagLine line m t rest) :
    opensCode (m.text ++ t ++ rest.takeWhile (!isBlank ·)) = false := by
  have hstem : Marker.EndsStem (rest.takeWhile (!isBlank ·)) := fun c hc =>
    (h.ends.of_prefix (List.takeWhile_prefix _) c hc).imp isBlank_of_isIndent id
  have hcode : t ≠ Tag.code := by
    rintro rfl
    exact h.notCode (by decide)
  rw [opensCode, Marker.leading?_append h.isTagText hstem]
  exact decide_eq_false hcode

theorem ne_nil (h : IsTagLine line m t rest) : line ≠ [] := by
  rintro rfl
  cases h.words_eq

/-- The words up to some word of a tagged line are such a line as well. -/
theorem unwords_cons (h : IsTagLine line m t rest) {more : Text}
    (hmore : ∀ c ∈ more.head?, c = ' ') :
    IsTagLine (m.text ++ t ++ rest.takeWhile (!isBlank ·) ++ more) m t
      (rest.takeWhile (!isBlank ·) ++ more) := by
  have hfirst : ∃ c u, isBlank c = false ∧
      m.text ++ t ++ rest.takeWhile (!isBlank ·) ++ more = c :: u := by
    cases m <;> exact ⟨_, _, by decide, rfl⟩
  obtain ⟨c, u, hc, hcons⟩ := hfirst
  refine ⟨?_, ?_, h.known, h.notCode, fun d hd => ?_⟩
  · rw [hcons, Text.indentation_cons hc]
  · rw [← List.append_assoc, hcons, Text.trimStart_cons hc]
  · rcases hq : rest.takeWhile (!isBlank ·) with _ | ⟨e, q⟩
    · rw [hq] at hd
      exact .inl (by rw [hmore d hd]; rfl)
    · rw [hq] at hd
      exact h.ends.of_prefix (List.takeWhile_prefix _) d (by rw [hq]; exact hd)

end IsTagLine

/-! ## One line -/

/-- A line opens code behind its first word if that word does not. -/
theorem openCode?_of_words {line w : Text} {ws : List Text} (hwords : line.words = w :: ws)
    (hw : opensCode w = false) :
    openCode? line =
      match ws.span (!opensCode ·) with
      | (_, []) => none
      | (before, opener :: rest) =>
        if rest.any (Marker.leads · Tag.endCode) then none
        else some (Text.unwords (w :: before), Text.unwords (opener :: rest)) := by
  rw [openCode?, hwords, List.span_eq_takeWhile_dropWhile, List.span_eq_takeWhile_dropWhile,
    List.takeWhile_cons_of_pos (by simp [hw]), List.dropWhile_cons_of_pos (by simp [hw])]
  cases ws.dropWhile (!opensCode ·) <;> rfl

namespace State

variable {s : State} {raw raw' : Text}

theorem takeLine_congr {line line' : Text} (h : readLine line = readLine line') (s : State) :
    s.takeLine line = s.takeLine line' := by
  rw [takeLine, takeLine, h]

/-- **Outside code, it does not matter to any step how a tag is written.** -/
theorem step_of_isTagLine {m m' : Marker} {t t' rest : Text} (hcode : s.code = none)
    (hline : IsTagLine (dropStar raw) m t rest) (hline' : IsTagLine (dropStar raw') m' t' rest)
    (ht : t.lower = t'.lower) : s.step raw = s.step raw' := by
  have hopen := openCode?_of_words hline.words_eq hline.opensCode_eq_false
  have hopen' := openCode?_of_words hline'.words_eq hline'.opensCode_eq_false
  have hplain : s.takeLine (dropStar raw) = s.takeLine (dropStar raw') :=
    takeLine_congr (hline.readLine_congr hline' ht) s
  rcases hspan : (Text.words (rest.dropWhile (!isBlank ·))).span (!opensCode ·) with
    ⟨before, _ | ⟨opener, more⟩⟩
  · rw [hspan] at hopen hopen'
    rw [step_of_plain hcode hopen, step_of_plain hcode hopen', hplain]
  · rw [hspan] at hopen hopen'
    by_cases hcloses : more.any (Marker.leads · Tag.endCode) = true
    · simp only [hcloses, if_true] at hopen hopen'
      rw [step_of_plain hcode hopen, step_of_plain hcode hopen', hplain]
    · simp only [hcloses, Bool.false_eq_true, if_false] at hopen hopen'
      -- the words before the code are lines with the same tag
      obtain ⟨tail, htail, hunwords⟩ := Text.exists_unwords_cons before
      rw [hunwords] at hopen hopen'
      have hbefore := hline.unwords_cons htail
      have hbefore' := hline'.unwords_cons htail
      rw [step_of_opens hcode hopen, step_of_opens hcode hopen',
        beginCode_of_words hbefore.ne_nil, beginCode_of_words hbefore'.ne_nil, hline.margin,
        hline'.margin, List.take_zero, List.take_zero, List.nil_append, List.nil_append,
        takeLine_congr (hbefore.readLine_congr hbefore' ht) s]

theorem step_of_respelled (hcode : s.code = none) (h : Respelled (dropStar raw) (dropStar raw')) :
    s.step raw = s.step raw' := by
  obtain ⟨m, m', t, rest, hline, hline'⟩ := h
  exact step_of_isTagLine hcode hline hline' rfl

end State

/-! ## All lines -/

/-- Lines that are the same but for the markers of tags outside code. -/
inductive Respells : (inCode : Bool) → List Text → List Text → Prop where
  | nil (inCode : Bool) : Respells inCode [] []
  | same {inCode : Bool} (raw : Text) {ls ls' : List Text}
    (h : Respells (opensBelow inCode raw) ls ls') : Respells inCode (raw :: ls) (raw :: ls')
  | tag {inCode : Bool} {raw raw' : Text} {ls ls' : List Text} (hout : inCode = false)
    (hline : Respelled (dropStar raw) (dropStar raw'))
    (h : Respells (opensBelow inCode raw) ls ls') : Respells inCode (raw :: ls) (raw' :: ls')

/-- What is read after a line depends on the states that the line leads to. -/
theorem readLines_cons_congr {s : State} {raw : Text} {ls ls' : List Text}
    (h : ∀ s', s.step raw = .ok s' → readLines s' ls = readLines s' ls') :
    readLines s (raw :: ls) = readLines s (raw :: ls') := by
  rw [readLines_cons, readLines_cons]
  rcases hstep : s.step raw with e | s'
  · rfl
  · exact h s' hstep

/-- Two comments are in the same state below each of their lines, or fail in the same way. -/
theorem readLines_of_respells {inCode : Bool} {ls ls' : List Text} (h : Respells inCode ls ls')
    {s : State} (hs : s.code.isSome = inCode) : readLines s ls = readLines s ls' := by
  induction h generalizing s with
  | nil => rfl
  | same raw _ ih =>
    subst hs
    exact readLines_cons_congr fun s' hstep => ih (State.isSome_code_step hstep)
  | @tag _ raw raw' ls ls' hout hline _ ih =>
    subst hs
    have hcode : s.code = none := by simpa using hout
    have hlines : readLines s (raw :: ls) = readLines s (raw :: ls') :=
      readLines_cons_congr fun s' hstep => ih (State.isSome_code_step hstep)
    rw [hlines, readLines_cons, readLines_cons, State.step_of_respelled hcode hline]

/-- **The markers of tags are interchangeable.** Comments with lines that differ in nothing but the
markers of tags outside code have the same elements, or cannot be read because of the same
mistake. -/
theorem elements_eq_of_respells {x y : Text} (h : Respells false (sourceLines x) (sourceLines y)) :
    elements x = elements y := by
  rw [elements_eq, elements_eq, stateAfter, stateAfter, readLines_of_respells h rfl]

/-- Tags behind a star, before code and below it, one with a capital and two with qualifiers. The
tag in the code is none. -/
theorem elements_eq_of_respells_code :
    let x := "* @param[in] a\n@Brief x @code\n@param[bogus]\n@endcode\n\\class{C}".toList
    let y := "* \\\\param[in] a\n\\Brief x @code\n@param[bogus]\n@endcode\n@class{C}".toList
    elements x = elements y ∧ (elements y).toOption.map (·.length) = some 4 := by
  intro x y
  have hx : sourceLines x = ["* @param[in] a", "@Brief x @code", "@param[bogus]", "@endcode",
    "\\class{C}"].map String.toList := by decide +kernel
  have hy : sourceLines y = ["* \\\\param[in] a", "\\Brief x @code", "@param[bogus]",
    "@endcode", "@class{C}"].map String.toList := by decide +kernel
  have hparam : Respelled "@param[in] a".toList "\\\\param[in] a".toList :=
    ⟨.atSign, .twoBackslashes, "param".toList, "[in] a".toList,
      ⟨by decide, by decide, by decide, by decide, endsName_cons (by decide) _⟩,
      ⟨by decide, by decide, by decide, by decide, endsName_cons (by decide) _⟩⟩
  have hbrief : Respelled "@Brief x @code".toList "\\Brief x @code".toList :=
    ⟨.atSign, .backslash, "Brief".toList, " x @code".toList,
      ⟨by decide, by decide, by decide, by decide, endsName_cons (by decide) _⟩,
      ⟨by decide, by decide, by decide, by decide, endsName_cons (by decide) _⟩⟩
  have hclass : Respelled "\\class{C}".toList "@class{C}".toList :=
    ⟨.backslash, .atSign, "class".toList, "{C}".toList,
      ⟨by decide, by decide, by decide, by decide, endsName_cons (by decide) _⟩,
      ⟨by decide, by decide, by decide, by decide, endsName_cons (by decide) _⟩⟩
  refine ⟨elements_eq_of_respells ?_, by decide +kernel⟩
  rw [hx, hy]
  exact .tag rfl hparam (.tag (by decide) hbrief (.same _ (.same _ (.tag (by decide) hclass
    (.nil _)))))

end DoxygenMarkdown.Comment

import DoxygenMarkdown.Proofs.Comment.Apart
import DoxygenMarkdown.Proofs.Comment.Spelling
import DoxygenMarkdown.Proofs.Comment.Verbatim
import DoxygenMarkdown.Proofs.Text.LetterCase
import Mathlib.Data.List.Forall2

/-!
# The letter case of a tag

A known tag at the start of a line may be written in any letter case, with one exception: the tag
for code opens a block in small letters only, and only in small letters is such a block closed. So
two comments that differ in the case of such tags are read the same exactly if they differ in no tag
for code and in no line of code (`Recases`): **`elements_eq_iff_recases`**. A mistake that both of
them make says nothing about the lines, so it is left out.

The comments are compared line by line.

* A tag outside code is read off its small letters, so the step is the same for both
  (`State.step_of_recased`).
* Lines of code are kept as they are written, and only `endcode` in small letters closes the block.
  So both comments put something different into the text of the block
  (`State.apart_of_recased_of_code`).
* Of two spellings of the tag for code at most one opens a block or is a fence on its line. The
  other one begins a plain line, in which it stays (`State.exists_of_step_codeTag`).

In the last two cases the comments came apart, whatever stands below (`Apart`).
-/

namespace DoxygenMarkdown

/-! ## The first word of a formatted line -/

theorem Text.words_unwords_cons {w : Text} (hne : w ≠ []) (hw : ∀ c ∈ w, isBlank c = false)
    (ws : List Text) : Text.words (Text.unwords (w :: ws)) = w :: ws.flatMap Text.words := by
  rw [words_unwords_eq_flatMap, List.flatMap_cons, words_of_forall_not_blank hne hw,
    List.singleton_append]

namespace Inline

theorem changeAfter_cons_of_none {rule : Text → Option (Text → Text)} {w : Text}
    (h : rule w = none) (ws : List Text) :
    changeAfter rule (w :: ws) = w :: changeAfter rule ws := by
  cases ws with
  | nil => simp only [changeAfter, h, Option.isSome_none, Bool.false_eq_true, if_false]
  | cons next ws => rw [changeAfter, h]

/-- A first word that no pass looks for stays there, and the tag for code begins a fence. -/
theorem exists_format_eq {t w : Text} {ws : List Text} (hwords : t.words = w :: ws)
    (h : ∀ tag ∈ tags, tag ≠ "code".toList → Marker.isSpelling w tag = false)
    (haddress : isAddress w = false) :
    ∃ vs, format t =
      Text.unwords ((if Marker.isSpelling w "code".toList then "\n```".toList else w) :: vs) := by
  obtain ⟨hne, hw⟩ := Text.areWords_words t w (hwords ▸ List.mem_cons_self)
  have hspelling : ∀ ts : List Text, (∀ tag ∈ ts, tag ∈ tags ∧ tag ≠ "code".toList) →
      ∀ tag ∈ ts, Marker.isSpelling w tag = false := fun ts hts tag htag =>
    h tag (hts tag htag).1 (hts tag htag).2
  have hreference : referenceRule w = none :=
    referenceRule_eq_none_iff.2 (hspelling _ (by decide))
  have hemoji : emojiRule w = none := emojiRule_eq_none_iff.2 (h _ (by decide) (by decide))
  have hstyle : styleRule w = none := styleRule_eq_none_iff.2 (hspelling _ (by decide))
  have hend : Marker.isSpelling w "endcode".toList = false := h _ (by decide) (by decide)
  rw [format, fenceCode, Marker.replaceTag, Marker.replaceTag, styleWords, showEmoji,
    linkReferences, linkAddresses, hwords, List.map_cons, haddress]
  simp only [Bool.false_eq_true, if_false, Text.words_unwords_cons hne hw,
    changeAfter_cons_of_none hreference, changeAfter_cons_of_none hemoji,
    changeAfter_cons_of_none hstyle, List.map_cons, hend]
  exact ⟨_, rfl⟩

end Inline

namespace Marker

/-- A marker and letters spell the tag that the letters are, and no other. -/
theorem isSpelling_append {m : Marker} {t tag : Text} (ht : IsTagText t) (htag : IsTagText tag) :
    isSpelling (m.text ++ t) tag = decide (t = tag) := by
  rw [Bool.eq_iff_iff, isSpelling_iff, decide_eq_true_eq]
  constructor
  · rintro ⟨m', heq⟩
    have hsplit := congrArg split? heq
    rw [split?_append htag.1 (by simpa using isWhole_of_isTagText m' htag []),
      split?_append ht.1 (by simpa using isWhole_of_isTagText m ht [])] at hsplit
    exact (Prod.mk.inj (Option.some.inj hsplit)).2
  · rintro rfl
    exact ⟨m, rfl⟩

end Marker

theorem Inline.isTagText_of_mem_tags : ∀ tag ∈ tags, IsTagText tag := by
  simp only [IsTagText]
  decide

namespace Comment

/-! ## Lines that differ in the case of a tag -/

/-- What may stand behind a tag that ends with its word: the end of the line, a space or a tab. -/
def EndsWord (rest : Text) : Prop := ∀ c ∈ rest.head?, isIndent c = true

instance (rest : Text) : Decidable (EndsWord rest) :=
  Option.decidableForallMem rest.head?

/-- Two lines that differ at most in the letter case of the known tag that they begin with. There
may be a star in front of it. -/
inductive Recased (tag : Text) : Text → Text → Prop
  | intro {star : Text} (hstar : star ∈ [[], "* ".toList]) (m : Marker) (t t' : Text) {rest : Text}
    (ht : t.lower = tag) (hknown : Tag.isKnown tag = true)
    (hcase : t.map Char.toLower = t'.map Char.toLower) (hrest : EndsWord rest) :
    Recased tag (star ++ (m.text ++ t ++ rest)) (star ++ (m.text ++ t' ++ rest))

/-- A line that begins with a tag, in any letter case, that ends with its word. -/
structure IsTagWord (line : Text) (m : Marker) (t rest : Text) : Prop where
  line_eq : line = m.text ++ t ++ rest
  known : Tag.isKnown t.lower = true
  ends : EndsWord rest

namespace IsTagWord

variable {line : Text} {m : Marker} {t rest : Text}

theorem isTagText (h : IsTagWord line m t rest) : IsTagText t := Tag.isTagText_of_isKnown h.known

theorem exists_cons (h : IsTagWord line m t rest) :
    ∃ c u, line = c :: u ∧ isBlank c = false ∧ c ≠ '*' := by
  rw [h.line_eq]
  cases m <;> exact ⟨_, _, rfl, by decide, by decide⟩

theorem dropStar_eq (h : IsTagWord line m t rest) {star : Text} (hstar : star ∈ [[], "* ".toList]) :
    dropStar (star ++ line) = line := by
  obtain ⟨c, u, rfl, hb, hc⟩ := h.exists_cons
  rcases List.mem_cons.1 hstar with rfl | hstar
  · exact dropStar_cons hb hc u
  · rw [List.mem_singleton.1 hstar]
    rfl

theorem indentation_eq (h : IsTagWord line m t rest) : line.indentation = 0 := by
  obtain ⟨c, u, rfl, hb, -⟩ := h.exists_cons
  exact Text.indentation_cons hb u

theorem trimStart_eq (h : IsTagWord line m t rest) : line.trimStart = m.text ++ t ++ rest := by
  obtain ⟨c, u, hline, hb, -⟩ := h.exists_cons
  rw [← h.line_eq, hline, Text.trimStart_cons hb]

theorem isTagLine (h : IsTagWord line m t rest) (hcode : t.lower ≠ Tag.code) :
    IsTagLine line m t rest :=
  ⟨h.indentation_eq, h.trimStart_eq, h.known, hcode, fun c hc => .inl (h.ends c hc)⟩

theorem takeWhile_rest (h : IsTagWord line m t rest) : rest.takeWhile (!isBlank ·) = [] := by
  rcases rest with _ | ⟨c, rest⟩
  · rfl
  · have hc : isBlank c = true := isBlank_of_isIndent (h.ends c rfl)
    rw [List.takeWhile_cons_of_neg (by simp [hc])]

theorem words_eq (h : IsTagWord line m t rest) : line.words = (m.text ++ t) :: rest.words := by
  have hwords := Marker.words_append_of_isTagText m h.isTagText rest
  have hdrop : rest.dropWhile (!isBlank ·) = rest := by
    have happend := List.takeWhile_append_dropWhile (p := (!isBlank ·)) (l := rest)
    rwa [h.takeWhile_rest, List.nil_append] at happend
  rwa [h.takeWhile_rest, List.append_nil, hdrop, ← h.line_eq] at hwords

theorem leads_eq (h : IsTagWord line m t rest) {tag : Text} (htag : IsTagText tag) :
    Marker.leads line tag = decide (t = tag) := by
  have hends : Marker.EndsStem [] := fun c hc => nomatch hc
  have hstem := Marker.stem_append_of_endsStem m h.isTagText hends
  rw [List.takeWhile_nil, List.append_nil] at hstem
  rw [Marker.leads, h.words_eq]
  change Marker.isSpelling (Marker.stem (m.text ++ t)) tag = _
  rw [hstem, Marker.isSpelling_append h.isTagText htag]

end IsTagWord

theorem isTagText_endCode : IsTagText Tag.endCode := Tag.isTagText_of_isKnown (by decide)

namespace Recased

variable {tag raw raw' : Text}

theorem isTagWord (h : Recased tag raw raw') :
    ∃ m t t' rest, IsTagWord (dropStar raw) m t rest ∧ IsTagWord (dropStar raw') m t' rest ∧
      t.lower = tag ∧ t'.lower = tag ∧ t.length = t'.length ∧ (raw ≠ raw' → t ≠ t') := by
  obtain ⟨hstar, m, t, t', rfl, hknown, hcase, hrest⟩ := h
  rename_i star rest
  have hlower : t'.lower = t.lower := (Text.lower_congr hcase).symm
  have hline : IsTagWord (m.text ++ t ++ rest) m t rest := ⟨rfl, hknown, hrest⟩
  have hline' : IsTagWord (m.text ++ t' ++ rest) m t' rest := ⟨rfl, hlower ▸ hknown, hrest⟩
  refine ⟨m, t, t', rest, ?_, ?_, rfl, hlower, ?_, ?_⟩
  · rwa [hline.dropStar_eq hstar]
  · rwa [hline'.dropStar_eq hstar]
  · rw [← List.length_map Char.toLower, hcase, List.length_map]
  · rintro hne rfl
    exact hne rfl

theorem length_eq (h : Recased tag raw raw') : raw.length = raw'.length := by
  obtain ⟨-, m, t, t', -, -, hcase, -⟩ := h
  have hlength := congrArg List.length hcase
  rw [List.length_map, List.length_map] at hlength
  simp only [List.length_append, hlength]

theorem exists_cons (h : Recased tag raw raw') :
    ∃ c u u', raw = c :: u ∧ raw' = c :: u' ∧ isBlank c = false ∧ c ≠ '`' := by
  obtain ⟨hstar, m, t, t', -, -, -, -⟩ := h
  rcases List.mem_cons.1 hstar with rfl | hstar
  · cases m <;> exact ⟨_, _, _, rfl, rfl, by decide, by decide⟩
  · rw [List.mem_singleton.1 hstar]
    exact ⟨_, _, _, rfl, rfl, by decide, by decide⟩

end Recased

namespace State

variable {s a b : State} {tag raw raw' : Text}

/-! ## Tags outside code -/

/-- **Outside code, a tag is read off its small letters**, unless it is the tag for code. -/
theorem step_of_recased (hcode : s.code = none) (h : Recased tag raw raw') (htag : tag ≠ Tag.code) :
    s.step raw = s.step raw' := by
  obtain ⟨m, t, t', rest, hline, hline', ht, ht', -⟩ := h.isTagWord
  exact step_of_isTagLine hcode (hline.isTagLine (ht ▸ htag)) (hline'.isTagLine (ht' ▸ htag))
    (ht.trans ht'.symm)

/-! ## Lines of code -/

/-- What a line puts into a block of code that is open: itself, or the fence that closes it. -/
def codeLine (raw : Text) : Text :=
  if Marker.leads (dropStar raw) Tag.endCode then "```".toList else raw

theorem content_cons {c : Char} (hc : isBlank c = false) (block : CodeBlock) (u : Text) :
    block.content (c :: u) = c :: u := by
  rw [CodeBlock.content, Text.trimStart_cons hc]
  rcases block.indent with _ | n
  · exact ite_id _
  · rw [List.take_succ_cons, Text.allBlank_cons hc]
    rfl

theorem grows_of_step_of_code {block : CodeBlock} (hc : s.code = some block)
    (hraw : block.content raw = raw) (h : s.step raw = .ok a) :
    Grows (s.modifyLast block.depth (Outline.addLine (codeLine raw))).elements a.elements := by
  rw [step_of_code hc] at h
  cases h
  rw [codeLine]
  split
  · exact s.grows_endCode block
  · rw [addCode, hraw]
    exact .refl

/-- Readers come apart in a block of code where only the letter case of a tag is different. -/
theorem apart_of_recased_of_code {block : CodeBlock} (hc : s.code = some block) (hs : s.HasText)
    (h : Recased tag raw raw') (hne : raw ≠ raw') (ha : s.step raw = .ok a)
    (hb : s.step raw' = .ok b) : Apart a.elements b.elements := by
  obtain ⟨c, u, u', hu, hu', hblank, htick⟩ := h.exists_cons
  obtain ⟨m, t, t', rest, hline, hline', -, -, -, htne⟩ := h.isTagWord
  have hgrows := grows_of_step_of_code hc (hu ▸ content_cons hblank block u) ha
  have hgrows' := grows_of_step_of_code hc (hu' ▸ content_cons hblank block u') hb
  refine Apart.grows ?_ hgrows hgrows'
  have hfence : ['`'] <+: "```".toList := ⟨_, rfl⟩
  have hsign : [c] <+: raw ∧ [c] <+: raw' := ⟨⟨u, hu.symm⟩, ⟨u', hu'.symm⟩⟩
  have hfirst : ['`'] ≠ [c] := fun heq => htick (List.cons.inj heq).1.symm
  simp only [codeLine, hline.leads_eq isTagText_endCode, hline'.leads_eq isTagText_endCode,
    decide_eq_true_eq]
  by_cases ht : t = Tag.endCode
  · have ht' : ¬ t' = Tag.endCode := fun ht' => htne hne (ht.trans ht'.symm)
    rw [if_pos ht, if_neg ht']
    exact apart_addLine hs _ hfence hsign.2 rfl hfirst
  · rw [if_neg ht]
    by_cases ht' : t' = Tag.endCode
    · rw [if_pos ht']
      exact apart_addLine hs _ hsign.1 hfence rfl hfirst.symm
    · rw [if_neg ht']
      exact apart_addLine hs _ List.prefix_rfl List.prefix_rfl h.length_eq hne

end State

/-! ## The tag for code -/

/-- What a plain line begins with that the tag for code begins, in small letters or not. -/
def codeTagStart (m : Marker) (t : Text) : Text := if t = Tag.code then ['\n'] else m.text ++ t

/-- Two spellings of the tag begin plain lines differently. -/
theorem exists_prefix_codeTagStart (m : Marker) {t t' : Text} (hne : t ≠ t')
    (hlength : t.length = t'.length) :
    ∃ x y : Text, x <+: codeTagStart m t ∧ y <+: codeTagStart m t' ∧ x ≠ [] ∧ x ≠ y ∧
      x.length = y.length := by
  have hmarker : ∀ t : Text, ∃ c, [c] <+: m.text ++ t ∧ c ≠ '\n' := fun t => by
    cases m <;> exact ⟨_, ⟨_, rfl⟩, by decide⟩
  have hcode : ∀ {t}, t = Tag.code → ['\n'] <+: codeTagStart m t := fun ht =>
    (if_pos ht : codeTagStart m _ = _) ▸ List.prefix_rfl
  have hother : ∀ {t}, t ≠ Tag.code → m.text ++ t <+: codeTagStart m t := fun ht =>
    (if_neg ht : codeTagStart m _ = _) ▸ List.prefix_rfl
  by_cases ht : t = Tag.code
  · obtain ⟨c, hc, hbreak⟩ := hmarker t'
    exact ⟨['\n'], [c], hcode ht, hc.trans (hother fun ht' => hne (ht.trans ht'.symm)), by decide,
      fun heq => hbreak (List.cons.inj heq).1.symm, rfl⟩
  by_cases ht' : t' = Tag.code
  · obtain ⟨c, hc, hbreak⟩ := hmarker t
    exact ⟨[c], ['\n'], hc.trans (hother ht), hcode ht', List.cons_ne_nil _ _,
      fun heq => hbreak (List.cons.inj heq).1, rfl⟩
  · refine ⟨m.text ++ t, m.text ++ t', hother ht, hother ht', ?_, ?_, ?_⟩
    · cases m <;> exact List.cons_ne_nil _ _
    · exact fun heq => hne (List.append_cancel_left heq)
    · rw [List.length_append, List.length_append, hlength]

namespace IsTagWord

variable {line : Text} {m : Marker} {t rest : Text}

/-- A line that the tag for code begins is plain, if it is read by itself. -/
theorem readLine_codeTag (h : IsTagWord line m t rest) (ht : t.lower = Tag.code) :
    readLine line = .ok (.element (.plain (.leaf (Inline.format line)))) := by
  have htag := h.isTagText
  have hends : ∀ c ∈ rest.trimEnd.head?, isIndent c = true := by
    intro c hc
    obtain ⟨u, hu⟩ := Text.prefix_dropEndWhile isBlank rest
    refine h.ends c ?_
    rw [← hu, List.head?_append]
    exact Option.mem_def.1 hc ▸ rfl
  rw [readLine_of_word h.indentation_eq (scan_trim_tag htag h.trimStart_eq), readTagged_of_unknown
    (takeWhile_tag htag (fun c hc => .inl (isBlank_of_isIndent (hends c hc)))
      fun c hc => .inl (hends c hc))
    fun hknown => hknown.2 ht]
  rfl

theorem prefix_format_codeTag (h : IsTagWord line m t rest) (ht : t.lower = Tag.code) :
    codeTagStart m t <+: Inline.format line := by
  have hother : ∀ tag ∈ Inline.tags, tag ≠ "code".toList → tag.lower ≠ Tag.code := by decide
  have hspelling : ∀ tag ∈ Inline.tags, Marker.isSpelling (m.text ++ t) tag = decide (t = tag) :=
    fun tag htag => Marker.isSpelling_append h.isTagText (Inline.isTagText_of_mem_tags tag htag)
  have haddress : Inline.isAddress (m.text ++ t) = false := by cases m <;> rfl
  obtain ⟨vs, hvs⟩ := Inline.exists_format_eq h.words_eq (fun tag htag hne => by
    rw [hspelling tag htag, decide_eq_false_iff_not]
    rintro rfl
    exact hother t htag hne ht) haddress
  obtain ⟨tail, -, htail⟩ := Text.exists_unwords_cons vs
  have hfirst : Marker.isSpelling (m.text ++ t) "code".toList = decide (t = Tag.code) :=
    hspelling _ (by decide)
  rw [hvs, htail, hfirst, codeTagStart]
  by_cases hcode : t = Tag.code
  · rw [if_pos hcode, if_pos (decide_eq_true hcode)]
    exact ⟨_, rfl⟩
  · rw [if_neg hcode, if_neg fun hspells => hcode (of_decide_eq_true hspells)]
    exact ⟨tail, rfl⟩

theorem opensCode_eq (h : IsTagWord line m t rest) :
    opensCode (m.text ++ t) = decide (t = Tag.code) := by
  have hends : Marker.EndsStem [] := fun c hc => nomatch hc
  have hlead := Marker.leading?_append (m := m) h.isTagText hends
  rw [List.append_nil] at hlead
  rw [opensCode, hlead]

/-- The words up to some word of such a line are such a line as well. -/
theorem unwords_cons (h : IsTagWord line m t rest) (before : List Text) :
    ∃ more, IsTagWord (Text.unwords ((m.text ++ t) :: before)) m t more := by
  obtain ⟨more, hmore, hunwords⟩ := Text.exists_unwords_cons before
  exact ⟨more, hunwords _, h.known, fun c hc => hmore c hc ▸ rfl⟩

end IsTagWord

/-- A line whose first word opens code has nothing before it. -/
theorem openCode?_of_opener {line w : Text} {ws : List Text} (hwords : line.words = w :: ws)
    (hw : opensCode w = true) {before opener : Text} (ho : openCode? line = some (before, opener)) :
    before = [] := by
  rw [openCode?, hwords, List.span_eq_takeWhile_dropWhile,
    List.takeWhile_cons_of_neg (by simp [hw]), List.dropWhile_cons_of_neg (by simp [hw])] at ho
  obtain ⟨-, ho⟩ := Option.ite_none_left_eq_some.1 ho
  exact (Prod.mk.inj (Option.some.inj ho)).1.symm

namespace State

variable {s a b : State} {raw raw' : Text}

/-- A line that the tag for code begins makes an element of its own. That is a block of code only if
the tag is in small letters. -/
theorem exists_of_step_codeTag {m : Marker} {t rest : Text} (hc : s.code = none)
    (h : IsTagWord (dropStar raw) m t rest) (ht : t.lower = Tag.code) (ha : s.step raw = .ok a) :
    ∃ e, Grows (e :: s.elements) a.elements ∧
      ((t = Tag.code ∧ ∃ languages top, e = .tagged Tag.code languages (.leaf top)) ∨
        ∃ top, e = .plain (.leaf top) ∧ codeTagStart m t <+: top) := by
  have hplain : ∀ {line rest : Text}, IsTagWord line m t rest →
      s.takeLine line = .ok (s.push (.plain (.leaf (Inline.format line))), some 0) := fun h =>
    takeLine_of_element (h.readLine_codeTag ht) s
  rcases ho : openCode? (dropStar raw) with _ | ⟨before, opener⟩
  · rw [step_of_plain hc ho, hplain h] at ha
    cases ha
    exact ⟨_, .refl, .inr ⟨_, rfl, h.prefix_format_codeTag ht⟩⟩
  rw [step_of_opens hc ho] at ha
  by_cases hcode : t = Tag.code
  · obtain rfl := openCode?_of_opener h.words_eq (h.opensCode_eq.trans (decide_eq_true hcode)) ho
    rw [beginCode_of_element fun hi => hi.1 h.indentation_eq] at ha
    cases ha
    exact ⟨_, .refl, .inl ⟨hcode, _, _, rfl⟩⟩
  · -- the block opens further on, below the words from this tag on
    rw [openCode?_of_words h.words_eq (h.opensCode_eq.trans (decide_eq_false hcode))] at ho
    split at ho
    · cases ho
    next words _ _ _ =>
    obtain ⟨-, ho⟩ := Option.ite_none_left_eq_some.1 ho
    obtain ⟨rfl, rfl⟩ := Prod.mk.inj (Option.some.inj ho)
    obtain ⟨more, hbefore⟩ := h.unwords_cons words
    have hne : Text.unwords ((m.text ++ t) :: words) ≠ [] := by
      obtain ⟨c, u, hcons, -⟩ := hbefore.exists_cons
      rw [hcons]
      exact List.cons_ne_nil c u
    rw [beginCode_of_words hne, h.indentation_eq, List.take_zero, List.nil_append,
      hplain hbefore] at ha
    cases ha
    exact ⟨_, grows_beginCodeAt (s.push _) _ _ _, .inr ⟨_, rfl, hbefore.prefix_format_codeTag ht⟩⟩

/-- Readers come apart where the tag for code is in small letters for one of them only. -/
theorem apart_of_recased_codeTag (hc : s.code = none) (h : Recased Tag.code raw raw')
    (hne : raw ≠ raw') (ha : s.step raw = .ok a) (hb : s.step raw' = .ok b) :
    Apart a.elements b.elements := by
  obtain ⟨m, t, t', rest, hline, hline', ht, ht', hlength, htne⟩ := h.isTagWord
  have hkind : ∀ {es fs : List Element} {languages : List Text} {top top' : Text},
      Grows (.tagged Tag.code languages (.leaf top) :: s.elements) es →
      Grows (.plain (.leaf top') :: s.elements) fs → Apart es fs := by
    intro es fs languages top top' hes hfs
    have hne : ∀ e : Element,
        e.mapContent (fun _ => .leaf []) = .tagged Tag.code languages (.leaf []) →
        ¬ e.mapContent (fun _ => .leaf []) = .plain (.leaf []) := fun e he hf =>
      Element.noConfusion (he.symm.trans hf)
    exact .intro (kept_frame _) (kept_frame _) hne rfl rfl hes hfs
  obtain ⟨e, hgrows, he⟩ := exists_of_step_codeTag hc hline ht ha
  obtain ⟨e', hgrows', he'⟩ := exists_of_step_codeTag hc hline' ht' hb
  rcases he with ⟨hcode, languages, top, rfl⟩ | ⟨top, rfl, htop⟩
  · rcases he' with ⟨hcode', -⟩ | ⟨top', rfl, -⟩
    · exact absurd (hcode.trans hcode'.symm) (htne hne)
    · exact hkind hgrows hgrows'
  · rcases he' with ⟨hcode', languages, top', rfl⟩ | ⟨top', rfl, htop'⟩
    · exact (hkind hgrows' hgrows).symm
    · obtain ⟨x, y, hx, hy, hxne, hxy, hxlength⟩ :=
        exists_prefix_codeTagStart m (htne hne) hlength
      exact apart_of_showsAt hxne hxlength hxy ⟨_, rfl, .top (hx.trans htop)⟩
        ⟨_, rfl, .top (hy.trans htop')⟩ hgrows hgrows'

end State

/-! ## All lines -/

/-- Lines that are the same but for the letter case of tags outside code, other than the tag for
code. -/
inductive Recases : (inCode : Bool) → List Text → List Text → Prop where
  | nil (inCode : Bool) : Recases inCode [] []
  | same {inCode : Bool} (raw : Text) {ls ls' : List Text}
    (h : Recases (opensBelow inCode raw) ls ls') : Recases inCode (raw :: ls) (raw :: ls')
  | tag {inCode : Bool} {tag raw raw' : Text} {ls ls' : List Text} (hout : inCode = false)
    (hcode : tag ≠ Tag.code) (hline : Recased tag raw raw')
    (h : Recases (opensBelow inCode raw) ls ls') : Recases inCode (raw :: ls) (raw' :: ls')

/-- Two comments are in the same state below each of their lines, or fail in the same way. -/
theorem readLines_of_recases {inCode : Bool} {ls ls' : List Text} (h : Recases inCode ls ls')
    {s : State} (hs : s.code.isSome = inCode) : readLines s ls = readLines s ls' := by
  induction h generalizing s with
  | nil => rfl
  | same raw _ ih =>
    subst hs
    exact readLines_cons_congr fun s' hstep => ih (State.isSome_code_step hstep)
  | @tag _ _ raw raw' ls ls' hout htag hline _ ih =>
    subst hs
    have hcode : s.code = none := by simpa using hout
    have hlines : readLines s (raw :: ls) = readLines s (raw :: ls') :=
      readLines_cons_congr fun s' hstep => ih (State.isSome_code_step hstep)
    rw [hlines, readLines_cons, readLines_cons, State.step_of_recased hcode hline htag]

/-- Lines that differ at most in the letter case of a known tag that they begin with. -/
def DifferInCase (raw raw' : Text) : Prop := raw = raw' ∨ ∃ tag, Recased tag raw raw'

/-- Two readers of such lines stay together as long as the lines allow it, or they come apart. -/
theorem recases_or_apart {ls ls' : List Text} (h : List.Forall₂ DifferInCase ls ls') {s a b : State}
    (hs : s.HoldsCode) (ha : readLines s ls = .ok a) (hb : readLines s ls' = .ok b) :
    Recases s.code.isSome ls ls' ∨ Apart a.elements b.elements := by
  induction h generalizing s with
  | nil => exact .inl (.nil _)
  | @cons raw raw' ls ls' hline _ ih =>
    obtain ⟨a₁, hstep, ha⟩ := exists_of_readLines_cons ha
    obtain ⟨b₁, hstep', hb⟩ := exists_of_readLines_cons hb
    have hbelow : Apart a₁.elements b₁.elements → Apart a.elements b.elements := fun h =>
      h.grows (grows_readLines ha) (grows_readLines hb)
    by_cases heq : raw = raw'
    · subst heq
      obtain rfl : a₁ = b₁ := Except.ok.inj (hstep.symm.trans hstep')
      have hrest := ih (State.holdsCode_step hs hstep) ha hb
      rw [State.isSome_code_step hstep] at hrest
      exact hrest.imp (.same raw) id
    obtain ⟨tag, hline⟩ := hline.resolve_left heq
    rcases hc : s.code with _ | block
    · by_cases htag : tag = Tag.code
      · exact .inr (hbelow (State.apart_of_recased_codeTag hc (htag ▸ hline) heq hstep hstep'))
      · obtain rfl : a₁ = b₁ := by
          rw [State.step_of_recased hc hline htag] at hstep
          exact Except.ok.inj (hstep.symm.trans hstep')
        have hrest := ih (State.holdsCode_step hs hstep) ha hb
        rw [State.isSome_code_step hstep, hc] at hrest
        exact hrest.imp (.tag rfl htag hline) id
    · have htext : s.HasText := hs (by rw [hc]; exact Option.some_ne_none _)
      exact .inr (hbelow (State.apart_of_recased_of_code hc htext hline heq hstep hstep'))

/-- **Tags outside code may be written in any letter case**, but for the tag for code. Two comments
that differ only in the case of known tags at the start of lines are read the same if they differ
in no tag for code and in no line of code. Otherwise they are not, unless both make the same
mistake. -/
theorem elements_eq_iff_recases {x y : Text}
    (h : List.Forall₂ DifferInCase (sourceLines x) (sourceLines y)) :
    elements x = elements y ↔
      Recases false (sourceLines x) (sourceLines y) ∨
        ∃ e, elements x = .error e ∧ elements y = .error e := by
  constructor
  · intro heq
    rcases hx : stateAfter x with e | a
    · have herror := elements_of_error hx
      exact .inr ⟨e, herror, heq ▸ herror⟩
    rcases hy : stateAfter y with e | b
    · have herror := elements_of_error hy
      exact .inr ⟨e, heq.trans herror, herror⟩
    refine .inl ((recases_or_apart h State.holdsCode_init hx hy).resolve_right fun hapart => ?_)
    rw [elements_of_ok hx, elements_of_ok hy] at heq
    exact State.finish_ne_of_apart hapart (Except.ok.inj heq)
  · rintro (h | ⟨e, hx, hy⟩)
    · rw [elements_eq, elements_eq, stateAfter, stateAfter, readLines_of_recases h rfl]
    · rw [hx, hy]

/-- Tags above and below a block of code. The tag in the block is none, and is the same for both. -/
theorem elements_eq_iff_recases_around_code :
    let x := "* @BRIEF x @code\n@Brief\n@endcode\n\\Note y\n@EndCode".toList
    let y := "* @Brief x @code\n@Brief\n@endcode\n\\note y\n@endcode".toList
    List.Forall₂ DifferInCase (sourceLines x) (sourceLines y) ∧ elements x = elements y := by
  intro x y
  have hx : sourceLines x = ["* @BRIEF x @code", "@Brief", "@endcode", "\\Note y",
    "@EndCode"].map String.toList := by decide +kernel
  have hy : sourceLines y = ["* @Brief x @code", "@Brief", "@endcode", "\\note y",
    "@endcode"].map String.toList := by decide +kernel
  have hbrief : Recased "brief".toList "* @BRIEF x @code".toList "* @Brief x @code".toList :=
    .intro (List.mem_cons_of_mem _ List.mem_cons_self) .atSign "BRIEF".toList "Brief".toList rfl
      (by decide) (by decide) (by decide : EndsWord " x @code".toList)
  have hnote : Recased "note".toList "\\Note y".toList "\\note y".toList :=
    .intro List.mem_cons_self .backslash "Note".toList "note".toList rfl (by decide) (by decide)
      (by decide : EndsWord " y".toList)
  have hend : Recased Tag.endCode "@EndCode".toList "@endcode".toList :=
    .intro List.mem_cons_self .atSign "EndCode".toList "endcode".toList rfl (by decide) (by decide)
      (by decide : EndsWord [])
  have hlines : List.Forall₂ DifferInCase (sourceLines x) (sourceLines y) := by
    rw [hx, hy]
    exact .cons (.inr ⟨_, hbrief⟩) (.cons (.inl rfl) (.cons (.inl rfl) (.cons (.inr ⟨_, hnote⟩)
      (.cons (.inr ⟨_, hend⟩) .nil))))
  refine ⟨hlines, (elements_eq_iff_recases hlines).2 (.inl ?_)⟩
  rw [hx, hy]
  exact .tag rfl (by decide) hbrief (.same _ (.same _ (.tag (by decide) (by decide) hnote
    (.tag (by decide) (by decide) hend (.nil _)))))

/-- Only in small letters does the tag for code open a block, and only so is the block closed. -/
theorem elements_capital_code :
    let small := "@code\nx\n@endcode".toList
    let opening := "@Code\nx\n@endcode".toList
    let closing := "@code\nx\n@EndCode".toList
    (List.Forall₂ DifferInCase (sourceLines small) (sourceLines opening) ∧
      List.Forall₂ DifferInCase (sourceLines small) (sourceLines closing)) ∧
    elements small = .ok [.tagged Tag.code [] (.leaf "```\nx\n```".toList),
      .tagged Tag.endCode [] (.leaf []), .separator] ∧
    elements opening = .ok [.plain (.leaf "@Code".toList), .plain (.leaf "x".toList),
      .tagged Tag.endCode [] (.leaf []), .separator] ∧
    elements closing =
      .ok [.tagged Tag.code [] (.leaf "```\nx\n@EndCode\n```".toList), .separator] := by
  have hcode : DifferInCase "@code".toList "@Code".toList :=
    .inr ⟨Tag.code, .intro List.mem_cons_self .atSign "code".toList "Code".toList rfl (by decide)
      (by decide) (by decide : EndsWord [])⟩
  have hend : DifferInCase "@endcode".toList "@EndCode".toList :=
    .inr ⟨Tag.endCode, .intro List.mem_cons_self .atSign "endcode".toList "EndCode".toList rfl
      (by decide) (by decide) (by decide : EndsWord [])⟩
  exact ⟨⟨.cons hcode (.cons (.inl rfl) (.cons (.inl rfl) .nil)),
    .cons (.inl rfl) (.cons (.inl rfl) (.cons hend .nil))⟩, rfl, rfl, rfl⟩

end Comment

end DoxygenMarkdown

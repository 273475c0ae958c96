import DoxygenMarkdown.Marker
import DoxygenMarkdown.Proofs.Tag
import DoxygenMarkdown.Proofs.Text.Words

/-!
# Words and their stems

A word is cut where its qualifier begins, so the stem of a tag with a qualifier is the tag
(`stem_append_of_endsStem`). A word keeps its first character, so one that does not begin with a
marker is no tag to anyone: it spells none (`isSpelling_eq_false`) and its stem has none in front
(`leading?_eq_none`).
-/

namespace DoxygenMarkdown.Marker

/-- A word spells a tag in one of three ways. -/
theorem isSpelling_iff {w tag : Text} :
    isSpelling w tag = true ↔ ∃ m : Marker, w = m.text ++ tag := by
  rw [isSpelling, decide_eq_true_eq, spellings, List.mem_map]
  constructor
  · rintro ⟨m, -, rfl⟩
    exact ⟨m, rfl⟩
  · rintro ⟨m, rfl⟩
    exact ⟨m, by cases m <;> decide, rfl⟩

theorem cutBefore_append {stop : Char} {w : Text} (hne : w ≠ []) (h : stop ∉ w) (t : Text) :
    cutBefore stop (w ++ t) = w ++ t.takeWhile (· ≠ stop) := by
  cases w with
  | nil => exact absurd rfl hne
  | cons c w =>
    have hc : c ≠ stop := fun hc => h (hc ▸ List.mem_cons_self)
    have hw : ∀ d ∈ w, decide (d ≠ stop) = true := fun d hd =>
      decide_eq_true fun hds => h (hds ▸ List.mem_cons_of_mem _ hd)
    rw [List.cons_append, cutBefore, if_neg hc, List.takeWhile_append_of_pos hw]
    rfl

/-! ## Words that do not begin with a marker -/

/-- A word that does not begin with a marker. -/
def HasNoMarker (w : Text) : Prop := w.head? ≠ some '@' ∧ w.head? ≠ some '\\'

theorem head?_cutBefore (stop : Char) (w : Text) : (cutBefore stop w).head? = w.head? := by
  cases w with
  | nil => rfl
  | cons c w =>
    rw [cutBefore]
    by_cases hc : c = stop
    · rw [if_pos hc]
    · rw [if_neg hc]
      rfl

theorem head?_stem (w : Text) : (stem w).head? = w.head? := by
  rw [stem, head?_cutBefore, head?_cutBefore]

/-- No marker can be taken off the front of such a word. -/
theorem after?_text_eq_none {w : Text} (h : HasNoMarker w) (m : Marker) :
    Text.after? m.text w = none := by
  rcases hr : Text.after? m.text w with _ | r
  · rfl
  · rw [Text.after?_eq_some_iff] at hr
    subst hr
    cases m with
    | twoBackslashes => exact absurd rfl h.2
    | backslash => exact absurd rfl h.2
    | atSign => exact absurd rfl h.1

/-- Such a word spells no tag. -/
theorem isSpelling_eq_false {w : Text} (h : HasNoMarker w) (tag : Text) :
    isSpelling w tag = false := by
  rw [Bool.eq_false_iff]
  intro hw
  obtain ⟨m, rfl⟩ := isSpelling_iff.1 hw
  have hm := after?_text_eq_none h m
  rw [Text.after?_append] at hm
  cases hm

/-- Such a word, qualifier or not, is no tag. -/
theorem leading?_eq_none {w : Text} (hne : w ≠ []) (hb : ∀ c ∈ w, isBlank c = false)
    (h : HasNoMarker w) : leading? w = none := by
  have hstem : HasNoMarker (stem w) := by
    rw [HasNoMarker, head?_stem]
    exact h
  rw [leading?, Text.words_of_forall_not_blank hne hb]
  simp only [split?, all, List.findSome?_cons, List.findSome?_nil, after?_text_eq_none hstem,
    Option.map_none]

/-! ## What the matcher finds -/

/-- What may stand behind a tag for the matcher: the end, a blank, or the start of a qualifier. -/
def EndsStem (t : Text) : Prop := ∀ c ∈ t.head?, isBlank c = true ∨ c = '[' ∨ c = '{'

/-- A marker that is all of the markers that a text begins with. -/
def IsWhole (m : Marker) (t : Text) : Prop := m = .backslash → t.head? ≠ some '\\'

theorem isWhole_of_isTagText (m : Marker) {t : Text} (h : IsTagText t) (rest : Text) :
    m.IsWhole (t ++ rest) := by
  obtain ⟨hne, hchars⟩ := h
  obtain ⟨c, t, rfl⟩ := List.exists_cons_of_ne_nil hne
  intro _ hc
  obtain rfl : c = '\\' := Option.some.inj hc
  exact absurd (hchars _ List.mem_cons_self).2 (by decide)

theorem split?_append {m : Marker} {t : Text} (hne : t ≠ []) (h : m.IsWhole t) :
    split? (m.text ++ t) = some (m, t) := by
  obtain ⟨c, t, rfl⟩ := List.exists_cons_of_ne_nil hne
  cases m with
  | twoBackslashes => rfl
  | atSign => rfl
  | backslash =>
    have hc : ¬ '\\' = c := fun hc => h rfl (hc ▸ rfl)
    simp [split?, all, text, Text.after?, hc]

theorem eq_append_of_split? {w t : Text} {m : Marker} (h : split? w = some (m, t)) :
    w = m.text ++ t := by
  rw [split?] at h
  split at h
  · cases h
  · obtain ⟨m', -, hm'⟩ := List.exists_of_findSome?_eq_some h
    obtain ⟨r, hr, heq⟩ := Option.map_eq_some_iff.1 hm'
    obtain ⟨rfl, rfl⟩ := Prod.mk.inj heq
    exact Text.after?_eq_some_iff.1 hr

theorem cutBefore_eq_append (stop : Char) (w : Text) :
    ∃ z, w = cutBefore stop w ++ z ∧ ∀ c ∈ z.head?, c = stop := by
  rcases w with _ | ⟨c, w⟩
  · exact ⟨[], rfl, fun c hc => by cases hc⟩
  · rw [cutBefore]
    by_cases hc : c = stop
    · rw [if_pos hc]
      exact ⟨[], (List.append_nil _).symm, fun c hc => by cases hc⟩
    · rw [if_neg hc]
      refine ⟨w.dropWhile (· ≠ stop), ?_, fun d hd => ?_⟩
      · rw [List.cons_append, List.takeWhile_append_dropWhile]
      · simpa using Text.eq_false_of_mem_head?_dropWhile hd

/-- A stem is cut off where a bracket or a brace begins the qualifier. -/
theorem stem_eq_append (w : Text) : ∃ z, w = stem w ++ z ∧ ∀ c ∈ z.head?, c = '[' ∨ c = '{' := by
  obtain ⟨x, hx, hsquare⟩ := cutBefore_eq_append '[' w
  obtain ⟨y, hy, hbrace⟩ := cutBefore_eq_append '{' (cutBefore '[' w)
  refine ⟨y ++ x, ?_, fun c hc => ?_⟩
  · rw [stem, ← List.append_assoc, ← hy, ← hx]
  · rcases y with _ | ⟨d, y⟩
    · exact .inl (hsquare c hc)
    · exact .inr (hbrace c hc)

variable {m : Marker} {t rest : Text}

/-- A marker and the letters of a tag. -/
theorem not_blank_of_isTagText (m : Marker) (h : IsTagText t) :
    m.text ++ t ≠ [] ∧ ∀ c ∈ m.text ++ t, isBlank c = false ∧ c ≠ '[' ∧ c ≠ '{' := by
  have hm : m.text ≠ [] ∧ ∀ c ∈ m.text, isBlank c = false ∧ c ≠ '[' ∧ c ≠ '{' := by
    cases m <;> decide
  refine ⟨List.append_ne_nil_of_left_ne_nil hm.1 t, fun c hc => ?_⟩
  rcases List.mem_append.1 hc with hc | hc
  · exact hm.2 c hc
  · obtain ⟨hb, hsign⟩ := h.2 c hc
    exact ⟨hb, fun hc => hsign (by simp [hc]), fun hc => hsign (by simp [hc])⟩

theorem stem_append_of_endsStem (m : Marker) (h : IsTagText t) (hrest : EndsStem rest) :
    stem (m.text ++ t ++ rest.takeWhile (!isBlank ·)) = m.text ++ t := by
  obtain ⟨hne, hchars⟩ := not_blank_of_isTagText m h
  rw [stem, cutBefore_append hne fun hc => (hchars _ hc).2.1 rfl,
    cutBefore_append hne fun hc => (hchars _ hc).2.2 rfl]
  rcases rest with _ | ⟨c, rest⟩
  · exact List.append_nil _
  · rcases hrest c rfl with hb | rfl | rfl
    · simp [hb]
    · simp [isBlank]
    · simp [isBlank]

/-- The first word of a text that begins with a tag has the qualifier of the tag with it. -/
theorem words_append_of_isTagText (m : Marker) (h : IsTagText t) (rest : Text) :
    Text.words (m.text ++ t ++ rest) =
      (m.text ++ t ++ rest.takeWhile (!isBlank ·)) :: Text.words (rest.dropWhile (!isBlank ·)) := by
  obtain ⟨hne, hchars⟩ := not_blank_of_isTagText m h
  have hword : ∀ c ∈ m.text ++ t ++ rest.takeWhile (!isBlank ·), isBlank c = false := by
    intro c hc
    rcases List.mem_append.1 hc with hc | hc
    · exact (hchars c hc).1
    · simpa using List.all_eq_true.1 List.all_takeWhile c hc
  rw [← Text.words_append_of_beginsNoWord (List.append_ne_nil_of_left_ne_nil hne _) hword
    (Text.beginsNoWord_dropWhile rest), List.append_assoc (m.text ++ t),
    List.takeWhile_append_dropWhile]

/-- A tag that ends for the matcher is found. -/
theorem leading?_append (h : IsTagText t) (hrest : EndsStem rest) :
    leading? (m.text ++ t ++ rest) = some (m, t) := by
  rw [leading?, words_append_of_isTagText m h rest]
  simp only [stem_append_of_endsStem m h hrest]
  exact split?_append h.1 (by simpa using isWhole_of_isTagText m h [])

/-- A tag that the matcher finds stands at the start of the text and ends for the matcher. -/
theorem eq_append_of_leading? {line : Text} (h : leading? line = some (m, t)) :
    ∃ rest, line.trim = m.text ++ t ++ rest ∧ EndsStem rest := by
  rw [leading?, ← Text.words_trim] at h
  by_cases hne : line.trim = []
  · rw [hne] at h
    cases h
  · rw [Text.words_eq_cons hne (Text.head?_trim line)] at h
    obtain ⟨z, hw, hz⟩ := stem_eq_append (line.trim.takeWhile (!isBlank ·))
    refine ⟨z ++ line.trim.dropWhile (!isBlank ·), ?_, fun c hc => ?_⟩
    · rw [← eq_append_of_split? h, ← List.append_assoc, ← hw, List.takeWhile_append_dropWhile]
    · -- the stem ends where the qualifier begins, or else where the word does
      rcases z with _ | ⟨d, z⟩
      · exact .inl (Text.beginsNoWord_dropWhile _ c hc)
      · exact .inr (hz c hc)

/-! ## What is left without the tag -/

/-- Without its first word, a line has the words behind that. -/
theorem words_dropFirstWord (line : Text) : (dropFirstWord line).words = line.words.tail := by
  rw [dropFirstWord, Text.words_trimStart, ← Text.words_trimStart line]
  by_cases hne : line.trimStart = []
  · rw [hne]
    rfl
  · rw [Text.words_eq_cons hne (Text.head?_trimStart line), List.tail_cons]

/-- The tag that a line begins with is dropped with the word that it stands in. -/
theorem dropLeading_of_leading? {line : Text} (h : leading? line = some (m, t)) :
    dropLeading line t = dropFirstWord line := by
  have hleads : leads line t = true := by
    rw [leading?] at h
    rw [leads]
    split at h
    · cases h
    · exact isSpelling_iff.2 ⟨m, eq_append_of_split? h⟩
  rw [dropLeading, if_pos hleads]

end DoxygenMarkdown.Marker

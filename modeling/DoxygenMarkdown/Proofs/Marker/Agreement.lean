import DoxygenMarkdown.Proofs.Marker

/-!
# The questions about tags agree

There are several ways to ask for a tag in a text: which one the text begins with, whether it begins
with a given one, whether it has that one somewhere, and what is left of it without the tag. They go
different ways about it. `leading?` takes off the longest marker that it finds, the others write the
tag behind each of the three markers and compare whole words. All of them give the same answers
(`matchers_agree`).

A marker can begin with another one, so a word may be a marker and a tag in two ways: two
backslashes and `n` are also a backslash and a tag that begins with one. Tags that begin with a
backslash are therefore left out (`isSpelling_iff_split?`). Nothing else is asked of a tag.
-/

namespace DoxygenMarkdown.Marker

variable {t w tag replacement : Text}

/-! ## Words -/

/-- A word spells a tag exactly if the tag is what is left of it behind the longest marker. -/
theorem isSpelling_iff_split? (hne : tag ≠ []) (hslash : tag.head? ≠ some '\\') :
    isSpelling w tag = true ↔ ∃ m, split? w = some (m, tag) := by
  rw [isSpelling_iff]
  refine exists_congr fun m => ⟨?_, eq_append_of_split?⟩
  rintro rfl
  exact split?_append hne fun _ => hslash

/-! ## The first word -/

theorem leads_iff_exists_cons :
    leads t tag = true ↔ ∃ w ws, t.words = w :: ws ∧ isSpelling (stem w) tag = true := by
  rw [leads]
  rcases t.words with _ | ⟨w, ws⟩
  · refine iff_of_false Bool.false_ne_true ?_
    rintro ⟨w, ws, hnil, -⟩
    cases hnil
  · constructor
    · exact fun h => ⟨w, ws, rfl, h⟩
    · rintro ⟨_, _, ⟨⟩, h⟩
      exact h

/-- To ask for a tag is to ask which one there is. -/
theorem leads_iff_leading? (hne : tag ≠ []) (hslash : tag.head? ≠ some '\\') :
    leads t tag = true ↔ ∃ m, leading? t = some (m, tag) := by
  rw [leads, leading?]
  rcases t.words with _ | ⟨w, ws⟩
  · refine iff_of_false Bool.false_ne_true ?_
    rintro ⟨m, hm⟩
    cases hm
  · exact isSpelling_iff_split? hne hslash

/-- Without the tag that it begins with, a text has the words behind its first word. -/
theorem exists_words_dropLeading (h : leads t tag = true) :
    ∃ w, t.words = w :: (dropLeading t tag).words := by
  obtain ⟨w, ws, hwords, -⟩ := leads_iff_exists_cons.1 h
  refine ⟨w, ?_⟩
  rw [dropLeading, if_pos h, words_dropFirstWord, hwords, List.tail_cons]

/-! ## All words -/

theorem leads_of_mem_words (h : w ∈ t.words) : leads w tag = isSpelling (stem w) tag := by
  obtain ⟨hne, hblank⟩ := Text.areWords_words t w h
  rw [leads, Text.words_of_forall_not_blank hne hblank]

/-- To look for a tag somewhere is to look at the words one by one. -/
theorem occurs_iff_exists_leads : occurs t tag = true ↔ ∃ w ∈ t.words, leads w tag = true := by
  rw [occurs, List.any_eq_true]
  refine exists_congr fun w => and_congr_right fun hw => ?_
  rw [leads_of_mem_words hw]

theorem areWords_replaced (hne : replacement ≠ [])
    (hblank : ∀ c ∈ replacement, isBlank c = false) :
    Text.AreWords (t.words.map fun w => if isSpelling w tag then replacement else w) := by
  intro w hw
  obtain ⟨v, hv, rfl⟩ := List.mem_map.1 hw
  split
  · exact ⟨hne, hblank⟩
  · exact Text.areWords_words t v hv

/-- The words of a text, with every one that spells the tag replaced by another word. -/
theorem words_replaceTag (hne : replacement ≠ []) (hblank : ∀ c ∈ replacement, isBlank c = false) :
    (replaceTag t tag replacement).words =
      t.words.map fun w => if isSpelling w tag then replacement else w :=
  Text.words_unwords (areWords_replaced hne hblank)

/-- No tag is left to be replaced again, unless the other word is one. -/
theorem replaceTag_replaceTag (hne : replacement ≠ [])
    (hblank : ∀ c ∈ replacement, isBlank c = false)
    (hother : isSpelling replacement tag = false) :
    replaceTag (replaceTag t tag replacement) tag replacement = replaceTag t tag replacement := by
  rw [replaceTag, words_replaceTag hne hblank, List.map_map, replaceTag]
  refine congrArg Text.unwords (List.map_congr_left fun w _ => ?_)
  rw [Function.comp_apply]
  by_cases hw : isSpelling w tag = true
  · rw [if_pos hw, hother, if_neg Bool.false_ne_true]
  · rw [if_neg hw, if_neg hw]

/-- **The questions about tags agree.** A text begins with a tag exactly if that is the tag it is
found to begin with, and has the tag exactly if one of its words begins with it. Without the tag it
has all words but the first one, and it is left as it is if it does not begin with the tag. Where
the tag is replaced by a word that does not spell it, the words that spell the tag become that word
and the others stay, and doing so again changes nothing. -/
theorem matchers_agree (hne : tag ≠ []) (hslash : tag.head? ≠ some '\\') (t : Text) :
    (leads t tag = true ↔ ∃ m, leading? t = some (m, tag)) ∧
    (occurs t tag = true ↔ ∃ w ∈ t.words, leads w tag = true) ∧
    (leads t tag = true → ∃ w, t.words = w :: (dropLeading t tag).words) ∧
    (leads t tag = false → dropLeading t tag = t) ∧
    ∀ replacement : Text, replacement ≠ [] → (∀ c ∈ replacement, isBlank c = false) →
      isSpelling replacement tag = false →
      (replaceTag t tag replacement).words =
        t.words.map (fun w => if isSpelling w tag then replacement else w) ∧
      replaceTag (replaceTag t tag replacement) tag replacement =
        replaceTag t tag replacement := by
  refine ⟨leads_iff_leading? hne hslash, occurs_iff_exists_leads, exists_words_dropLeading, ?_, ?_⟩
  · intro h
    rw [dropLeading, h, if_neg Bool.false_ne_true]
  · intro replacement hword hblank hother
    exact ⟨words_replaceTag hword hblank, replaceTag_replaceTag hword hblank hother⟩

/-- A tag behind two backslashes and with a qualifier, and the same tag as a word of its own. -/
theorem matchers_agree_parameter :
    (∃ m, leading? " \\\\param[in]  x @param ".toList = some (m, "param".toList)) ∧
      (replaceTag " \\\\param[in]  x @param ".toList "param".toList "y".toList).words =
        ["\\\\param[in]".toList, "x".toList, "y".toList] := by
  have hne : "param".toList ≠ [] := by decide
  obtain ⟨hleads, -, -, -, hreplace⟩ := matchers_agree hne (by decide)
    " \\\\param[in]  x @param ".toList
  exact ⟨hleads.1 (by decide), (hreplace "y".toList (by decide) (by decide) (by decide)).1⟩

end DoxygenMarkdown.Marker

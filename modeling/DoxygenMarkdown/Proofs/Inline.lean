import DoxygenMarkdown.Inline
import DoxygenMarkdown.Proofs.Marker

/-!
# Markup is found once

Whatever stood on a line, nothing is markup any more on the line that comes out of formatting: no
word spells a tag that a pass looks for, and none is an address (`IsUnmarked`). A line without
markup only has its gaps narrowed. So formatting a line again changes no word of it
(`format_settles`).

* What a pass makes of a word begins with a sign that begins neither a marker nor an address
  (`BeginsPlainly`). So a word that comes out of a pass was made there, or it went in and is not
  what the pass looks for (`Settles`).
* A word that was made is not markup for the passes to come either. So what a pass has settled stays
  settled (`Settles.comp`), and formatting settles all that its passes do.
-/

namespace DoxygenMarkdown.Inline

/-- The tags that mark words of a line. -/
def tags : List Text :=
  ["ref", "sa", "see", "emoji", "a", "e", "em", "b", "c", "p", "code", "endcode"].map String.toList

/-- A word that is no markup: it spells none of the tags, and is no address. -/
structure IsUnmarked (w : Text) : Prop where
  isSpelling_eq_false : ∀ tag ∈ tags, Marker.isSpelling w tag = false
  isAddress_eq_false : isAddress w = false

instance (w : Text) : Decidable (IsUnmarked w) :=
  decidable_of_iff ((∀ tag ∈ tags, Marker.isSpelling w tag = false) ∧ isAddress w = false)
    ⟨fun ⟨hs, ha⟩ => ⟨hs, ha⟩, fun h => ⟨h.1, h.2⟩⟩

/-- Formatting goes by the words of a line. -/
theorem format_congr {t u : Text} (h : t.words = u.words) : format t = format u := by
  rw [format, linkAddresses, h]
  rfl

/-! ## What the passes look for -/

theorem isSpellingOfAny_eq_false_iff {w : Text} {ts : List Text} :
    Marker.isSpellingOfAny w ts = false ↔ ∀ tag ∈ ts, Marker.isSpelling w tag = false := by
  rw [Marker.isSpellingOfAny, List.any_eq_false]
  exact forall₂_congr fun tag _ => Bool.not_eq_true _ ▸ Iff.rfl

theorem referenceRule_eq_none_iff {w : Text} :
    referenceRule w = none ↔ ∀ tag ∈ referenceTags, Marker.isSpelling w tag = false := by
  rw [← isSpellingOfAny_eq_false_iff, referenceRule, ite_eq_right_iff]
  simp

theorem emojiRule_eq_none_iff {w : Text} :
    emojiRule w = none ↔ Marker.isSpelling w "emoji".toList = false := by
  rw [emojiRule, ite_eq_right_iff]
  simp

theorem styleRule_eq_none_iff {w : Text} :
    styleRule w = none ↔
      ∀ tag ∈ slantedTags ++ boldTags ++ codeTags, Marker.isSpelling w tag = false := by
  have hall : (∀ tag ∈ slantedTags ++ boldTags ++ codeTags, Marker.isSpelling w tag = false) ↔
      Marker.isSpellingOfAny w slantedTags = false ∧ Marker.isSpellingOfAny w boldTags = false ∧
        Marker.isSpellingOfAny w codeTags = false := by
    simp only [isSpellingOfAny_eq_false_iff, List.forall_mem_append, and_assoc]
  rw [hall, styleRule]
  split
  · next h => simp [h]
  split
  · next h => simp [h]
  split
  · next h => simp [h]
  · next hslanted hbold hcode => simp [hslanted, hbold, hcode]

theorem tags_eq :
    tags = referenceTags ++ "emoji".toList :: (slantedTags ++ boldTags ++ codeTags) ++
      ["code".toList, "endcode".toList] := by decide

/-- A word is no markup if no pass looks for it. -/
theorem isUnmarked_iff {w : Text} :
    IsUnmarked w ↔ isAddress w = false ∧ referenceRule w = none ∧ emojiRule w = none ∧
      styleRule w = none ∧ Marker.isSpelling w "endcode".toList = false ∧
      Marker.isSpelling w "code".toList = false := by
  have htags : (∀ tag ∈ tags, Marker.isSpelling w tag = false) ↔
      (referenceRule w = none ∧ emojiRule w = none ∧ styleRule w = none) ∧
        Marker.isSpelling w "code".toList = false ∧
        Marker.isSpelling w "endcode".toList = false := by
    rw [tags_eq, List.forall_mem_append, List.forall_mem_append, List.forall_mem_cons,
      List.forall_mem_cons, List.forall_mem_singleton, referenceRule_eq_none_iff,
      emojiRule_eq_none_iff, styleRule_eq_none_iff]
  constructor
  · rintro ⟨hs, ha⟩
    obtain ⟨⟨href, hemoji, hstyle⟩, hcode, hend⟩ := htags.1 hs
    exact ⟨ha, href, hemoji, hstyle, hend, hcode⟩
  · rintro ⟨ha, href, hemoji, hstyle, hend, hcode⟩
    exact ⟨htags.2 ⟨⟨href, hemoji, hstyle⟩, hcode, hend⟩, ha⟩

/-! ## What the passes make -/

/-- A text that begins neither like a marker nor like an address. -/
def BeginsPlainly (t : Text) : Prop := ∀ c ∈ t.head?, c ∉ ['@', '\\', 'h']

instance (t : Text) : Decidable (BeginsPlainly t) :=
  match t with
  | [] => isTrue nofun
  | c :: _ => decidable_of_iff (c ∉ ['@', '\\', 'h'])
      ⟨fun h _ hd => Option.some.inj hd ▸ h, fun h => h c rfl⟩

theorem BeginsPlainly.hasNoMarker {t : Text} (h : BeginsPlainly t) : Marker.HasNoMarker t :=
  ⟨fun hc => h '@' hc (by decide), fun hc => h '\\' hc (by decide)⟩

theorem BeginsPlainly.isAddress_eq_false {t : Text} (h : BeginsPlainly t) :
    isAddress t = false := by
  rcases t with _ | ⟨c, t⟩
  · rfl
  · have hc : ¬ 'h' = c := fun hc => h c rfl (hc ▸ by decide)
    simp [isAddress, Text.startsWith, Text.after?, hc]

theorem BeginsPlainly.isUnmarked {t : Text} (h : BeginsPlainly t) : IsUnmarked t where
  isSpelling_eq_false _ _ := Marker.isSpelling_eq_false h.hasNoMarker _
  isAddress_eq_false := h.isAddress_eq_false

/-- Signs around a word make another word, which begins with the first sign. -/
theorem beginsPlainly_between {left right : String} {c : Char} {l : Text}
    (hleft : left.toList = c :: l) (hc : c ∉ ['@', '\\', 'h'])
    (hb : ∀ d ∈ left.toList ++ right.toList, isBlank d = false) {w : Text}
    (hw : ∀ d ∈ w, isBlank d = false) : ∀ v ∈ (between left right w).words, BeginsPlainly v := by
  have hchars : ∀ d ∈ between left right w, isBlank d = false := by
    intro d hd
    rw [between, List.mem_append, List.mem_append] at hd
    rcases hd with (hd | hd) | hd
    · exact hb d (List.mem_append_left _ hd)
    · exact hw d hd
    · exact hb d (List.mem_append_right _ hd)
  have hcons : between left right w = c :: (l ++ w ++ right.toList) := by
    rw [between, hleft, List.cons_append, List.cons_append]
  rw [Text.words_of_forall_not_blank (hcons ▸ List.cons_ne_nil _ _) hchars, hcons]
  rintro v hv d hd
  rw [List.mem_singleton.1 hv] at hd
  exact Option.some.inj hd ▸ hc

theorem not_blank_dropPunctuation {w : Text} (h : ∀ c ∈ w, isBlank c = false) :
    ∀ c ∈ dropPunctuation w, isBlank c = false := by
  have hsub : dropPunctuation w ⊆ w := by
    unfold dropPunctuation
    split
    · split
      · exact (List.dropLast_sublist w).subset
      · exact List.Subset.refl w
    · exact List.Subset.refl w
  exact fun c hc => h c (hsub hc)

/-- The words that show an emoji. -/
theorem beginsPlainly_named (w : Text) : ∀ v ∈ (Emoji.named w).words, BeginsPlainly v := by
  have htable : ∀ entry ∈ Emoji.table, ∀ v ∈ Text.words entry.2.toList, BeginsPlainly v := by
    decide
  unfold Emoji.named
  split
  · next entry hfind => exact htable entry (List.mem_of_find?_eq_some hfind)
  · decide

/-! ## What the passes settle -/

/-- A pass settles something: a word that comes out of it begins plainly, or it went in and is
settled. -/
def Settles (P : Text → Prop) (pass : Text → Text) : Prop :=
  ∀ t, ∀ w ∈ (pass t).words, BeginsPlainly w ∨ w ∈ t.words ∧ P w

/-- What one pass has settled stays settled by the next one. -/
theorem Settles.comp {P Q : Text → Prop} {f g : Text → Text} (hg : Settles Q g)
    (hf : Settles P f) : Settles (fun w => P w ∧ Q w) fun t => g (f t) := by
  intro t w hw
  rcases hg (f t) w hw with hplain | ⟨hw, hQ⟩
  · exact .inl hplain
  · exact (hf t w hw).imp id fun ⟨hw, hP⟩ => ⟨hw, hP, hQ⟩

/-- A pass over the words one by one settles what it leaves alone, if all that it makes begins
plainly. -/
theorem settles_map {P : Text → Prop} {f : Text → Text}
    (h : ∀ w, (∀ c ∈ w, isBlank c = false) →
      (f w = w ∧ P w) ∨ ∀ v ∈ (f w).words, BeginsPlainly v) :
    Settles P fun t => Text.unwords (t.words.map f) := by
  intro t v hv
  rw [Text.words_unwords_eq_flatMap, List.flatMap_map] at hv
  obtain ⟨w, hw, hv⟩ := List.mem_flatMap.1 hv
  obtain ⟨hne, hb⟩ := Text.areWords_words t w hw
  rcases h w hb with ⟨hsame, hP⟩ | hmade
  · rw [hsame, Text.words_of_forall_not_blank hne hb] at hv
    obtain rfl := List.mem_singleton.1 hv
    exact .inr ⟨hw, hP⟩
  · exact .inl (hmade v hv)

/-- A word that comes out of a pass was not a marker, or it was changed by one. -/
theorem mem_changeAfter {rule : Text → Option (Text → Text)} {ws : List Text} {v : Text}
    (h : v ∈ changeAfter rule ws) :
    (v ∈ ws ∧ rule v = none) ∨
      ∃ w change next, rule w = some change ∧ next ∈ ws ∧ v = change next := by
  fun_induction changeAfter rule ws with
  | case1 => cases h
  | case2 => cases h
  | case3 w hrule =>
    obtain rfl := List.mem_singleton.1 h
    exact .inl ⟨List.mem_cons_self, by simpa using hrule⟩
  | case4 w next ws change hrule ih =>
    rcases List.mem_cons.1 h with rfl | h
    · exact .inr ⟨w, change, next, hrule, by simp, rfl⟩
    · refine (ih h).imp (fun ⟨hv, hnone⟩ => ⟨by simp [hv], hnone⟩) ?_
      rintro ⟨w', change', next', hrule', hnext, rfl⟩
      exact ⟨w', change', next', hrule', by simp [hnext], rfl⟩
  | case5 w next ws hrule ih =>
    rcases List.mem_cons.1 h with rfl | h
    · exact .inl ⟨List.mem_cons_self, hrule⟩
    · refine (ih h).imp (fun ⟨hv, hnone⟩ => ⟨List.mem_cons_of_mem _ hv, hnone⟩) ?_
      rintro ⟨w', change', next', hrule', hnext, rfl⟩
      exact ⟨w', change', next', hrule', List.mem_cons_of_mem _ hnext, rfl⟩

/-- A pass that drops markers settles them, if all that it makes begins plainly. -/
theorem settles_changeAfter {rule : Text → Option (Text → Text)}
    (h : ∀ w change, rule w = some change → ∀ next : Text, (∀ c ∈ next, isBlank c = false) →
      ∀ v ∈ (change next).words, BeginsPlainly v) :
    Settles (rule · = none) fun t => Text.unwords (changeAfter rule t.words) := by
  intro t v hv
  rw [Text.words_unwords_eq_flatMap] at hv
  obtain ⟨u, hu, hv⟩ := List.mem_flatMap.1 hv
  rcases mem_changeAfter hu with ⟨hu, hnone⟩ | ⟨w, change, next, hrule, hnext, rfl⟩
  · obtain ⟨hne, hb⟩ := Text.areWords_words t u hu
    rw [Text.words_of_forall_not_blank hne hb] at hv
    obtain rfl := List.mem_singleton.1 hv
    exact .inr ⟨hu, hnone⟩
  · exact .inl (h w change hrule next (Text.areWords_words t next hnext).2 v hv)

theorem settles_linkAddresses : Settles (isAddress · = false) linkAddresses := by
  refine settles_map fun w hb => ?_
  cases ha : isAddress w with
  | false => exact .inl ⟨if_neg Bool.false_ne_true, rfl⟩
  | true =>
      exact .inr
        (beginsPlainly_between rfl (by decide) (by decide) (not_blank_dropPunctuation hb))

theorem settles_linkReferences : Settles (referenceRule · = none) linkReferences := by
  refine settles_changeAfter fun w change hrule next hb => ?_
  rw [referenceRule, Option.ite_none_right_eq_some] at hrule
  obtain ⟨-, ⟨⟩⟩ := hrule
  exact beginsPlainly_between rfl (by decide) (by decide) (not_blank_dropPunctuation hb)

theorem settles_showEmoji : Settles (emojiRule · = none) showEmoji := by
  refine settles_changeAfter fun w change hrule next _ => ?_
  rw [emojiRule, Option.ite_none_right_eq_some] at hrule
  obtain ⟨-, ⟨⟩⟩ := hrule
  exact beginsPlainly_named next

theorem settles_styleWords : Settles (styleRule · = none) styleWords := by
  refine settles_changeAfter fun w change hrule next hb => ?_
  rw [styleRule] at hrule
  split at hrule
  · cases hrule
    exact beginsPlainly_between rfl (by decide) (by decide) hb
  split at hrule
  · cases hrule
    exact beginsPlainly_between rfl (by decide) (by decide) hb
  split at hrule
  · cases hrule
    exact beginsPlainly_between rfl (by decide) (by decide) hb
  · cases hrule

theorem settles_replaceTag (tag replacement : Text)
    (h : ∀ v ∈ replacement.words, BeginsPlainly v) :
    Settles (Marker.isSpelling · tag = false) (Marker.replaceTag · tag replacement) := by
  refine settles_map fun w _ => ?_
  cases hs : Marker.isSpelling w tag with
  | false => exact .inl ⟨if_neg Bool.false_ne_true, rfl⟩
  | true => exact .inr h

/-- Formatting settles all markup. -/
theorem isUnmarked_of_mem_format {t w : Text} (h : w ∈ (format t).words) : IsUnmarked w := by
  have hcode := (settles_replaceTag "code".toList "\n```".toList (by decide)).comp
    (settles_replaceTag "endcode".toList "```".toList (by decide))
  have hsettles := hcode.comp (settles_styleWords.comp
    (settles_showEmoji.comp (settles_linkReferences.comp settles_linkAddresses)))
  rcases hsettles t w h with hplain | ⟨-, ⟨⟨⟨ha, href⟩, hemoji⟩, hstyle⟩, hend, hcode⟩
  · exact hplain.isUnmarked
  · exact isUnmarked_iff.2 ⟨ha, href, hemoji, hstyle, hend, hcode⟩

/-! ## Lines without markup -/

/-- Without a marker, no word changes. -/
theorem changeAfter_of_forall_none {rule : Text → Option (Text → Text)} {ws : List Text}
    (h : ∀ w ∈ ws, rule w = none) : changeAfter rule ws = ws := by
  fun_induction changeAfter rule ws with
  | case1 => rfl
  | case2 w hw =>
    rw [h w List.mem_cons_self] at hw
    cases hw
  | case3 => rfl
  | case4 w next ws change hw =>
    rw [h w List.mem_cons_self] at hw
    cases hw
  | case5 w next ws hw ih => rw [ih fun v hv => h v (List.mem_cons_of_mem _ hv)]

theorem map_eq_self {f : Text → Text} {ws : List Text} (h : ∀ w ∈ ws, f w = w) : ws.map f = ws :=
  (List.map_congr_left h).trans (List.map_id' ws)

theorem replaceTag_unwords {ws : List Text} (hws : Text.AreWords ws) {tag : Text}
    (h : ∀ w ∈ ws, Marker.isSpelling w tag = false) (replacement : Text) :
    Marker.replaceTag (Text.unwords ws) tag replacement = Text.unwords ws := by
  rw [Marker.replaceTag, Text.words_unwords hws, map_eq_self]
  intro w hw
  rw [h w hw]
  rfl

/-- **Words that are no markup are left alone.** -/
theorem format_unwords_of_isUnmarked {ws : List Text} (hws : Text.AreWords ws)
    (h : ∀ w ∈ ws, IsUnmarked w) : format (Text.unwords ws) = Text.unwords ws := by
  have hwords : Text.words (Text.unwords ws) = ws := Text.words_unwords hws
  have hnone : ∀ w ∈ ws, _ := fun w hw => isUnmarked_iff.1 (h w hw)
  have haddress : linkAddresses (Text.unwords ws) = Text.unwords ws := by
    rw [linkAddresses, hwords, map_eq_self]
    intro w hw
    rw [(hnone w hw).1]
    rfl
  have hreference : linkReferences (Text.unwords ws) = Text.unwords ws := by
    rw [linkReferences, hwords, changeAfter_of_forall_none fun w hw => (hnone w hw).2.1]
  have hemoji : showEmoji (Text.unwords ws) = Text.unwords ws := by
    rw [showEmoji, hwords, changeAfter_of_forall_none fun w hw => (hnone w hw).2.2.1]
  have hstyle : styleWords (Text.unwords ws) = Text.unwords ws := by
    rw [styleWords, hwords, changeAfter_of_forall_none fun w hw => (hnone w hw).2.2.2.1]
  have hcode : fenceCode (Text.unwords ws) = Text.unwords ws := by
    rw [fenceCode, replaceTag_unwords hws fun w hw => (hnone w hw).2.2.2.2.1,
      replaceTag_unwords hws fun w hw => (hnone w hw).2.2.2.2.2]
  rw [format, haddress, hreference, hemoji, hstyle, hcode]

/-- A line without markup is its words with one space between them. -/
theorem format_of_forall_isUnmarked {t : Text} (h : ∀ w ∈ t.words, IsUnmarked w) :
    format t = Text.unwords t.words := by
  have hwords := Text.areWords_words t
  rw [← format_unwords_of_isUnmarked hwords h]
  exact format_congr (Text.words_unwords hwords).symm

/-- **Markup is found once.** No word of a formatted line is markup, so formatting the line again
leaves it the same words. A line without markup is its words with one space between them. -/
theorem format_settles (t : Text) :
    (∀ w ∈ (format t).words, IsUnmarked w) ∧ (format (format t)).words = (format t).words ∧
      ((∀ w ∈ t.words, IsUnmarked w) → format t = Text.unwords t.words) := by
  have hunmarked : ∀ w ∈ (format t).words, IsUnmarked w := fun _ => isUnmarked_of_mem_format
  refine ⟨hunmarked, ?_, format_of_forall_isUnmarked⟩
  rw [format_of_forall_isUnmarked hunmarked, Text.words_unwords (Text.areWords_words _)]

/-- Markers behind markers, an address that another marker takes, and a marker at the end; and a
line that only has a marker inside a word. -/
theorem format_settles_markers :
    format "@see @sa  \\b https://x.org, :+1: @emoji y @code @a".toList =
        "[`@sa`] **<https://x.org>** :+1: Unknown emoji \n```".toList ∧
      (∀ w ∈ Text.words "me@b\t (@c  http:/x".toList, IsUnmarked w) ∧
      format "me@b\t (@c  http:/x".toList = "me@b (@c http:/x".toList := by
  have hwords : ∀ w ∈ Text.words "me@b\t (@c  http:/x".toList, IsUnmarked w := by decide
  exact ⟨by decide, hwords, (format_settles _).2.2 hwords⟩

end DoxygenMarkdown.Inline

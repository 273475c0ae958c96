import DoxygenMarkdown.Proofs.Inline

/-!
# No word but a marker vanishes

Formatting may change the words of a line, but it takes none away that is not a marker. Each word
has an *image* in the line that comes out, one word or more, and the images come in the order of the
words: **`rewrites_format`**. Only a word that spells one of the tags for markup may have none.

Each pass is such a rewriting, and rewritings compose (`Rewrites.trans`): whatever a pass makes of a
word begins plainly, so it is no marker for the passes to come.
-/

namespace DoxygenMarkdown.Inline

/-- What may become of a word: it stays as it is, or other words are made of it, or it is a marker
and vanishes. -/
inductive IsImage (w : Text) : List Text → Prop
  | same : IsImage w [w]
  | made {vs : List Text} (hne : vs ≠ []) (hplain : ∀ v ∈ vs, BeginsPlainly v) : IsImage w vs
  | gone {tag : Text} (htag : tag ∈ tags) (hw : Marker.isSpelling w tag = true) : IsImage w []

/-- The images of some words, in order. -/
inductive Rewrites : List Text → List Text → Prop
  | nil : Rewrites [] []
  | cons {w : Text} {image ws us : List Text} (hw : IsImage w image) (h : Rewrites ws us) :
    Rewrites (w :: ws) (image ++ us)

/-! ## One rewriting after another -/

/-- A word that begins plainly has an image, and that begins plainly. -/
theorem IsImage.of_beginsPlainly {w : Text} {image : List Text} (h : IsImage w image)
    (hw : BeginsPlainly w) : image ≠ [] ∧ ∀ v ∈ image, BeginsPlainly v := by
  cases h with
  | same => exact ⟨List.cons_ne_nil _ _, List.forall_mem_singleton.2 hw⟩
  | made hne hplain => exact ⟨hne, hplain⟩
  | gone htag hspells =>
    rw [hw.isUnmarked.isSpelling_eq_false _ htag] at hspells
    cases hspells

theorem Rewrites.of_beginsPlainly {ws us : List Text} (h : Rewrites ws us) (hne : ws ≠ [])
    (hws : ∀ w ∈ ws, BeginsPlainly w) : us ≠ [] ∧ ∀ u ∈ us, BeginsPlainly u := by
  induction h with
  | nil => exact absurd rfl hne
  | @cons w image ws us hw h ih =>
    obtain ⟨hplain, hws⟩ := List.forall_mem_cons.1 hws
    obtain ⟨himage, hplain⟩ := hw.of_beginsPlainly hplain
    refine ⟨List.append_ne_nil_of_left_ne_nil himage us, List.forall_mem_append.2 ⟨hplain, ?_⟩⟩
    by_cases hnil : ws = []
    · subst hnil
      cases h
      exact fun u hu => absurd hu List.not_mem_nil
    · exact (ih hnil hws).2

/-- The words of an image have images of their own, and the words behind it have others. -/
theorem Rewrites.exists_append {ws ws' us : List Text} (h : Rewrites (ws ++ ws') us) :
    ∃ vs vs', us = vs ++ vs' ∧ Rewrites ws vs ∧ Rewrites ws' vs' := by
  induction ws generalizing us with
  | nil => exact ⟨[], us, rfl, .nil, h⟩
  | cons w ws ih =>
    cases h with
    | @cons _ image _ us hw h =>
      obtain ⟨vs, vs', rfl, hvs, hvs'⟩ := ih h
      exact ⟨image ++ vs, vs', (List.append_assoc _ _ _).symm, .cons hw hvs, hvs'⟩

/-- The image of an image is an image. -/
theorem IsImage.trans {w : Text} {image us : List Text} (hw : IsImage w image)
    (h : Rewrites image us) : IsImage w us := by
  cases hw with
  | same =>
    cases h with
    | cons hw h =>
      cases h
      rwa [List.append_nil]
  | made hne hplain =>
    obtain ⟨hus, hplain⟩ := h.of_beginsPlainly hne hplain
    exact .made hus hplain
  | gone htag hspells =>
    cases h
    exact .gone htag hspells

theorem Rewrites.trans {ws us vs : List Text} (h : Rewrites ws us) (h' : Rewrites us vs) :
    Rewrites ws vs := by
  induction h generalizing vs with
  | nil => exact h'
  | cons hw _ ih =>
    obtain ⟨image, vs, rfl, himage, hvs⟩ := h'.exists_append
    exact .cons (hw.trans himage) (ih hvs)

/-! ## What the passes do -/

/-- A pass takes away no word but a marker. -/
def Keeps (pass : Text → Text) : Prop := ∀ t : Text, Rewrites t.words (pass t).words

theorem Keeps.comp {f g : Text → Text} (hg : Keeps g) (hf : Keeps f) : Keeps fun t => g (f t) :=
  fun t => (hf t).trans (hg (f t))

theorem words_between_ne_nil {left right : String} {c : Char} {l : Text}
    (hleft : left.toList = c :: l) (hc : isBlank c = false) (w : Text) :
    (between left right w).words ≠ [] := by
  have hcons : between left right w = c :: (l ++ w ++ right.toList) := by
    rw [between, hleft, List.cons_append, List.cons_append]
  rw [hcons, Text.words_eq_cons (List.cons_ne_nil _ _) fun d hd => Option.some.inj hd ▸ hc]
  exact List.cons_ne_nil _ _

theorem words_named_ne_nil (w : Text) : (Emoji.named w).words ≠ [] := by
  have htable : ∀ entry ∈ Emoji.table, Text.words entry.2.toList ≠ [] := by decide
  unfold Emoji.named
  split
  · next entry hfind => exact htable entry (List.mem_of_find?_eq_some hfind)
  · decide

/-- Signs around a word make a word of it. -/
theorem isImage_between {left right : String} {c : Char} {l : Text} (hleft : left.toList = c :: l)
    (hc : isBlank c = false ∧ c ∉ ['@', '\\', 'h'])
    (hb : ∀ d ∈ left.toList ++ right.toList, isBlank d = false) {v w : Text}
    (hw : ∀ d ∈ w, isBlank d = false) : IsImage v (between left right w).words :=
  .made (words_between_ne_nil hleft hc.1 w) (beginsPlainly_between hleft hc.2 hb hw)

/-- A pass over the words one by one. -/
theorem keeps_map {f : Text → Text}
    (h : ∀ w, w ≠ [] → (∀ c ∈ w, isBlank c = false) → IsImage w (f w).words) :
    Keeps fun t => Text.unwords (t.words.map f) := by
  have hwords : ∀ ws, Text.AreWords ws → Rewrites ws ((ws.map f).flatMap Text.words) := by
    intro ws hws
    induction ws with
    | nil => exact .nil
    | cons w ws ih =>
      obtain ⟨⟨hne, hb⟩, hws⟩ := List.forall_mem_cons.1 hws
      exact .cons (h w hne hb) (ih hws)
  intro t
  rw [Text.words_unwords_eq_flatMap]
  exact hwords t.words (Text.areWords_words t)

/-- A pass that drops markers and changes the words behind them. -/
theorem keeps_changeAfter {rule : Text → Option (Text → Text)}
    (hmarker : ∀ w, (∀ tag ∈ tags, Marker.isSpelling w tag = false) → rule w = none)
    (hmade : ∀ w change, rule w = some change → ∀ next : Text, (∀ c ∈ next, isBlank c = false) →
      IsImage next (change next).words) :
    Keeps fun t => Text.unwords (changeAfter rule t.words) := by
  have hgone : ∀ w, (rule w).isSome = true → IsImage w [] := by
    intro w hw
    by_cases h : ∀ tag ∈ tags, Marker.isSpelling w tag = false
    · rw [hmarker w h] at hw
      cases hw
    · simp only [Classical.not_forall] at h
      obtain ⟨tag, htag, hspells⟩ := h
      exact .gone htag (Bool.not_eq_false _ ▸ hspells)
  have hsame : ∀ w : Text, w ≠ [] ∧ (∀ c ∈ w, isBlank c = false) → IsImage w w.words := by
    intro w hw
    rw [Text.words_of_forall_not_blank hw.1 hw.2]
    exact .same
  have hwords : ∀ ws, Text.AreWords ws →
      Rewrites ws ((changeAfter rule ws).flatMap Text.words) := by
    intro ws hws
    fun_induction changeAfter rule ws with
    | case1 => exact .nil
    | case2 w hrule => exact .cons (hgone w hrule) .nil
    | case3 w hrule => exact .cons (hsame w (hws w List.mem_cons_self)) .nil
    | case4 w next ws change hrule ih =>
      obtain ⟨-, hws⟩ := List.forall_mem_cons.1 hws
      obtain ⟨hnext, hws⟩ := List.forall_mem_cons.1 hws
      have hrest : Rewrites (next :: ws) _ :=
        .cons (hmade w change hrule next hnext.2) (ih hws)
      have hmark : IsImage w [] := hgone w (by rw [hrule]; rfl)
      have hall := Rewrites.cons hmark hrest
      exact hall
    | case5 w next ws hrule ih =>
      obtain ⟨hw, hws⟩ := List.forall_mem_cons.1 hws
      exact .cons (hsame w hw) (ih hws)
  intro t
  rw [Text.words_unwords_eq_flatMap]
  exact hwords t.words (Text.areWords_words t)

theorem keeps_linkAddresses : Keeps linkAddresses := by
  refine keeps_map fun w hne hb => ?_
  split
  · exact isImage_between rfl (by decide) (by decide) (not_blank_dropPunctuation hb)
  · rw [Text.words_of_forall_not_blank hne hb]
    exact .same

theorem keeps_linkReferences : Keeps linkReferences := by
  have htags : referenceTags ⊆ tags := by decide
  refine keeps_changeAfter (fun w h => ?_) fun w change hrule next hb => ?_
  · exact referenceRule_eq_none_iff.2 fun tag htag => h tag (htags htag)
  · rw [referenceRule, Option.ite_none_right_eq_some] at hrule
    obtain ⟨-, ⟨⟩⟩ := hrule
    exact isImage_between rfl (by decide) (by decide) (not_blank_dropPunctuation hb)

theorem keeps_showEmoji : Keeps showEmoji := by
  refine keeps_changeAfter (fun w h => ?_) fun w change hrule next _ => ?_
  · exact emojiRule_eq_none_iff.2 (h _ (by decide))
  · rw [emojiRule, Option.ite_none_right_eq_some] at hrule
    obtain ⟨-, ⟨⟩⟩ := hrule
    exact .made (words_named_ne_nil next) (beginsPlainly_named next)

theorem keeps_styleWords : Keeps styleWords := by
  have htags : slantedTags ++ boldTags ++ codeTags ⊆ tags := by decide
  refine keeps_changeAfter (fun w h => ?_) fun w change hrule next hb => ?_
  · exact styleRule_eq_none_iff.2 fun tag htag => h tag (htags htag)
  · rw [styleRule] at hrule
    split at hrule
    · cases hrule
      exact isImage_between rfl (by decide) (by decide) hb
    split at hrule
    · cases hrule
      exact isImage_between rfl (by decide) (by decide) hb
    split at hrule
    · cases hrule
      exact isImage_between rfl (by decide) (by decide) hb
    · cases hrule

theorem keeps_replaceTag (tag replacement : Text) (hne : replacement.words ≠ [])
    (h : ∀ v ∈ replacement.words, BeginsPlainly v) :
    Keeps (Marker.replaceTag · tag replacement) := by
  refine keeps_map fun w hw hb => ?_
  split
  · exact .made hne h
  · rw [Text.words_of_forall_not_blank hw hb]
    exact .same

/-- **Formatting takes no word away that is not a marker.** -/
theorem rewrites_format (t : Text) : Rewrites t.words (format t).words := by
  have hcode : Keeps fenceCode :=
    (keeps_replaceTag "code".toList "\n```".toList (by decide) (by decide)).comp
      (keeps_replaceTag "endcode".toList "```".toList (by decide) (by decide))
  exact (hcode.comp (keeps_styleWords.comp
    (keeps_showEmoji.comp (keeps_linkReferences.comp keeps_linkAddresses)))) t

end DoxygenMarkdown.Inline

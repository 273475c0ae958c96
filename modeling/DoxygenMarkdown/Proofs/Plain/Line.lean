import DoxygenMarkdown.Proofs.Comment.Settled
import DoxygenMarkdown.Proofs.Inline
import DoxygenMarkdown.Proofs.Text.Words
import DoxygenMarkdown.Proofs.Token
import DoxygenMarkdown.Rendering
import Mathlib.Data.List.TakeDrop
import Mathlib.Data.List.TakeWhile

/-!
# Plain lines

A line is *plain* (`IsPlainLine`) if nothing on it means anything but itself: no word begins with a
marker or an address, and the line is none of the signs that comments are decorated with. Every
stage of the way to Markdown has a reason to change a line, and for each of them there is a lemma
that says why it leaves a plain line alone:

* no pass of the markup finds a word to change (`Inline.format_unwords`);
* no star is dropped, no code is opened, and the first token is no marker, so the line becomes one
  element with the line as its text (`Comment.State.step_unwords`);
* the line is no decoration and no pointer back to what stands before it, so it is taken in
  (`Gathering.takeLine_unwords`) and written down again (`Markdown.dropPointers_unwords`).
-/

namespace DoxygenMarkdown

/-- A word that means nothing but itself. -/
structure IsPlainWord (w : Text) : Prop where
  ne_nil : w ≠ []
  not_blank : ∀ c ∈ w, isBlank c = false
  /-- It begins neither with a marker nor with an address. -/
  startsWith_eq_false :
    ∀ start ∈ ["@", "\\", "http://", "https://"], w.startsWith start.toList = false

/-- The words of a line that means nothing but itself. -/
structure IsPlainLine (ws : List Text) : Prop where
  ne_nil : ws ≠ []
  isPlainWord : ∀ w ∈ ws, IsPlainWord w
  head?_ne_star : ws.head? ≠ some ['*']
  head?_ne_angle : ws.head? ≠ some ['<']
  ne_stars : ws ≠ ["**".toList]
  ne_closing : ws ≠ ["*/".toList]

instance (w : Text) : Decidable (IsPlainWord w) :=
  decidable_of_iff
    (w ≠ [] ∧ (∀ c ∈ w, isBlank c = false) ∧
      ∀ start ∈ ["@", "\\", "http://", "https://"], w.startsWith start.toList = false)
    ⟨fun ⟨hne, hb, hstart⟩ => ⟨hne, hb, hstart⟩,
      fun h => ⟨h.ne_nil, h.not_blank, h.startsWith_eq_false⟩⟩

instance (ws : List Text) : Decidable (IsPlainLine ws) :=
  decidable_of_iff
    (ws ≠ [] ∧ (∀ w ∈ ws, IsPlainWord w) ∧ ws.head? ≠ some ['*'] ∧ ws.head? ≠ some ['<'] ∧
      ws ≠ ["**".toList] ∧ ws ≠ ["*/".toList])
    ⟨fun ⟨hne, hw, hstar, hangle, hstars, hclosing⟩ => ⟨hne, hw, hstar, hangle, hstars, hclosing⟩,
      fun h => ⟨h.ne_nil, h.isPlainWord, h.head?_ne_star, h.head?_ne_angle, h.ne_stars,
        h.ne_closing⟩⟩

theorem IsPlainWord.hasNoMarker {w : Text} (h : IsPlainWord w) : Marker.HasNoMarker w := by
  obtain ⟨hne, -, hstart⟩ := h
  cases w with
  | nil => exact absurd rfl hne
  | cons c w =>
    constructor
    · intro hc
      obtain rfl : c = '@' := Option.some.inj hc
      exact Bool.noConfusion (hstart "@" (by decide))
    · intro hc
      obtain rfl : c = '\\' := Option.some.inj hc
      exact Bool.noConfusion (hstart "\\" (by decide))

theorem IsPlainWord.isAddress_eq_false {w : Text} (h : IsPlainWord w) :
    Inline.isAddress w = false := by
  obtain ⟨-, -, hstart⟩ := h
  rw [Inline.isAddress, hstart "http://" (by decide), hstart "https://" (by decide)]
  rfl

theorem areWords_of_forall {ws : List Text} (h : ∀ w ∈ ws, IsPlainWord w) : Text.AreWords ws :=
  fun w hw => ⟨(h w hw).ne_nil, (h w hw).not_blank⟩

/-! ## Markup -/

theorem IsPlainWord.isUnmarked {w : Text} (h : IsPlainWord w) : Inline.IsUnmarked w where
  isSpelling_eq_false _ _ := Marker.isSpelling_eq_false h.hasNoMarker _
  isAddress_eq_false := h.isAddress_eq_false

/-- **Plain words carry no markup.** -/
theorem Inline.format_unwords {ws : List Text} (h : ∀ w ∈ ws, IsPlainWord w) :
    format (Text.unwords ws) = Text.unwords ws :=
  format_unwords_of_isUnmarked (areWords_of_forall h) fun w hw => (h w hw).isUnmarked

/-! ## Reading -/

variable {ws : List Text}

theorem IsPlainLine.areWords (h : IsPlainLine ws) : Text.AreWords ws :=
  areWords_of_forall h.isPlainWord

theorem IsPlainLine.words_unwords (h : IsPlainLine ws) : Text.words (Text.unwords ws) = ws :=
  Text.words_unwords h.areWords

theorem IsPlainLine.trim_unwords (h : IsPlainLine ws) :
    Text.trim (Text.unwords ws) = Text.unwords ws := Text.trim_unwords h.ne_nil h.areWords

/-- A line of words is a given text only if its words are the words of that text. -/
theorem IsPlainLine.unwords_ne (h : IsPlainLine ws) {t : Text} (ht : ws ≠ Text.words t) :
    Text.unwords ws ≠ t := by
  rintro rfl
  exact ht h.words_unwords.symm

/-- A sign that stands by itself before a plain line would be its first word. -/
theorem IsPlainLine.unwords_ne_sign (h : IsPlainLine ws) {c : Char} (hc : isBlank c = false)
    (hw : ws.head? ≠ some [c]) (t : Text) : Text.unwords ws ≠ c :: ' ' :: t := by
  intro ht
  rw [← h.words_unwords, ht] at hw
  exact hw (Text.head?_words_of_space hc t)

/-- The first character of a plain line. -/
theorem IsPlainLine.exists_cons (h : IsPlainLine ws) :
    ∃ c t, Text.unwords ws = c :: t ∧ isBlank c = false ∧ c ≠ '@' ∧ c ≠ '\\' := by
  obtain ⟨c, t, ht, hb, hhead⟩ := Text.unwords_eq_cons h.ne_nil h.areWords
  rcases ws with _ | ⟨w, ws⟩
  · cases hhead
  · obtain ⟨hat, hback⟩ := (h.isPlainWord w List.mem_cons_self).hasNoMarker
    have hw : w.head? = some c := hhead
    refine ⟨c, t, ht, hb, ?_, ?_⟩
    · rintro rfl
      exact hat hw
    · rintro rfl
      exact hback hw

namespace Comment

theorem dropStar_unwords (h : IsPlainLine ws) :
    dropStar (Text.unwords ws) = Text.unwords ws := by
  have hstar : Text.trim (Text.unwords ws) ≠ ['*'] := by
    rw [h.trim_unwords]
    refine h.unwords_ne fun hws => h.head?_ne_star ?_
    rw [hws]
    rfl
  rw [dropStar.eq_def]
  split
  · next ht => exact absurd ht (h.unwords_ne_sign (by decide) h.head?_ne_star _)
  · exact if_neg hstar

/-- A line opens no code if none of its words does. -/
theorem openCode?_of_forall {line : Text} (h : ∀ w ∈ line.words, opensCode w = false) :
    openCode? line = none := by
  have hopens : ∀ w ∈ line.words, (!opensCode w) = true := by
    intro w hw
    rw [h w hw]
    rfl
  rw [openCode?, List.span_eq_takeWhile_dropWhile, List.dropWhile_eq_nil_iff.2 hopens]

theorem openCode?_unwords (h : IsPlainLine ws) : openCode? (Text.unwords ws) = none := by
  apply openCode?_of_forall
  intro w hw
  have hplain := h.isPlainWord w (h.words_unwords ▸ hw)
  rw [opensCode, Marker.leading?_eq_none hplain.ne_nil hplain.not_blank hplain.hasNoMarker]

/-- A line at the margin whose first token is no marker is plain text. -/
theorem readTokens_of_head? {line : Text} {tokens : List Token} (hi : line.indentation = 0)
    (h : ∀ token ∈ tokens.head?, token.kind ≠ .marker) :
    readTokens line tokens = .ok (.element (plainLine line)) := by
  rw [readTokens.eq_def]
  split
  · exact absurd rfl (h _ rfl)
  · exact absurd rfl (h _ rfl)
  · exact absurd rfl (h _ rfl)
  · -- the line is not indented, and only a marker would make it tagged
    rw [if_neg (not_not_intro hi)]
    split
    · exact absurd rfl (h _ rfl)
    · rfl

theorem readLine_unwords (h : IsPlainLine ws) :
    readLine (Text.unwords ws) = .ok (.element (.plain (.leaf (Text.unwords ws)))) := by
  obtain ⟨c, t, ht, hb, hat, hback⟩ := h.exists_cons
  have hblank : Text.allBlank (Text.unwords ws) = false := by rw [ht, Text.allBlank_cons hb]
  have hindent : Text.indentation (Text.unwords ws) = 0 := by rw [ht, Text.indentation_cons hb]
  have hmarker : ∀ token ∈ (Token.scan (Text.unwords ws)).head?, token.kind ≠ .marker := by
    intro token htoken
    rw [ht] at htoken
    -- the first character is no marker, whatever else it is
    rw [Token.kind_of_mem_head?_scan htoken]
    exact Token.kindOf_ne_marker hat hback
  rw [readLine, hblank, h.trim_unwords, readTokens_of_head? hindent hmarker, plainLine,
    Inline.format_unwords h.isPlainWord]
  rfl

/-- Outside code, a plain line is an element that says what the line says. -/
theorem State.step_unwords (h : IsPlainLine ws) {s : State} (hc : s.code = none) :
    s.step (Text.unwords ws) = .ok (s.push (.plain (.leaf (Text.unwords ws)))) := by
  have hstar := dropStar_unwords h
  have hopen : openCode? (dropStar (Text.unwords ws)) = none := by
    rw [hstar, openCode?_unwords h]
  rw [step_of_plain hc hopen, hstar, takeLine_of_element (readLine_unwords h)]
  rfl

end Comment

/-! ## Gathering and writing -/

theorem isDecoration_leaf_unwords (h : IsPlainLine ws) :
    isDecoration (.leaf (Text.unwords ws)) = false := by
  have hstar : Text.unwords ws ≠ "*".toList := h.unwords_ne fun hws => h.head?_ne_star (hws ▸ rfl)
  have hstars : Text.unwords ws ≠ "**".toList := h.unwords_ne fun hws => h.ne_stars (hws ▸ rfl)
  have hclosing : Text.unwords ws ≠ "*/".toList := h.unwords_ne fun hws => h.ne_closing (hws ▸ rfl)
  have htop : Text.trim (Outline.leaf (Text.unwords ws)).top = Text.unwords ws := h.trim_unwords
  rw [isDecoration, htop]
  simp only [List.contains_cons, List.contains_nil, beq_eq_false_iff_ne.2 hstar,
    beq_eq_false_iff_ne.2 hstars, beq_eq_false_iff_ne.2 hclosing, Bool.or_false, Bool.and_false]

/-- Outside a buffer, a plain line goes to the description. -/
theorem Gathering.takeLine_unwords (h : IsPlainLine ws) {g : Gathering} (hb : g.buffer = none) :
    g.takeLine (.leaf (Text.unwords ws)) =
      { g with
        description := joinParagraph g.description (.leaf (Text.unwords ws)) g.joinable
        joinable := true } := by
  have hempty : (Outline.leaf (Text.unwords ws)).isEmpty = false := by
    obtain ⟨c, t, ht, -⟩ := h.exists_cons
    rw [ht]
    rfl
  simp only [takeLine, hempty, isDecoration_leaf_unwords h, hb, Bool.or_self, Bool.false_eq_true,
    if_false]

theorem startsWith_pointer_unwords (h : IsPlainLine ws) :
    Text.startsWith (Text.unwords ws) "< ".toList = false := by
  rw [Text.startsWith]
  rcases ht : Text.after? "< ".toList (Text.unwords ws) with _ | t
  · rfl
  · exact absurd (Text.after?_eq_some_iff.1 ht) (h.unwords_ne_sign (by decide) h.head?_ne_angle t)

/-- Plain lines point to nothing, between the fences of a block of code and elsewhere. -/
theorem Markdown.dropPointers_unwords {lines : List (List Text)}
    (h : ∀ ws ∈ lines, IsPlainLine ws) (inCode : Bool) :
    dropPointers inCode (lines.map Text.unwords) = lines.map Text.unwords := by
  induction lines generalizing inCode with
  | nil => rfl
  | cons ws lines ih =>
    have hws := h ws List.mem_cons_self
    have ih := ih fun vs hvs => h vs (List.mem_cons_of_mem _ hvs)
    have hpointer : (Text.trimStart (Text.unwords ws)).startsWith "< ".toList = false := by
      rw [Text.trimStart_unwords hws.ne_nil hws.areWords, startsWith_pointer_unwords hws]
    -- a fence only changes what is asked of the lines below it
    rw [List.map_cons, dropPointers, hpointer, ih, ih, Bool.and_false]
    exact ite_self _

end DoxygenMarkdown

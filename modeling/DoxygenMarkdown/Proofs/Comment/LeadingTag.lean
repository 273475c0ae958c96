import DoxygenMarkdown.Proofs.Comment.Step
import DoxygenMarkdown.Proofs.Inline
import DoxygenMarkdown.Proofs.Tag
import DoxygenMarkdown.Proofs.Text.Words
import DoxygenMarkdown.Proofs.Token
import Mathlib.Data.List.TakeWhile

/-!
# Two ways to find the tag of a line

The reader of a comment cuts a line into tokens and looks for a word after a marker; the matcher of
markers (`Marker.leading?`) cuts it into words at every blank, and the first word at its qualifier.
For a line at the margin both find the same tag: **`State.step_tagged_iff`**. What such a line says
is then all of it but its first word, so a tag never stays in the text.

The letters of a known tag (`IsTagText`) belong together for both, so all depends on what stands
behind them:

* a space, a tab, a bracket, an opening brace and the end of the line end the tag for both;
* other blanks end a word, but no token. A tag in front of one is found by the matcher only
  (`State.step_tag_before_other_blank`), so `EndsTag` leaves them out;
* a marker and a closing brace end a token, but no word. This is what `gluesTag` is about.
-/

namespace DoxygenMarkdown

/-- Without its first word, a line says what the words behind that say. -/
theorem Inline.format_dropFirstWord (line : Text) :
    format (Marker.dropFirstWord line) = format (Text.unwords line.words.tail) := by
  apply format_congr
  have htail : Text.AreWords line.words.tail := fun w hw =>
    Text.areWords_words line w (List.mem_of_mem_tail hw)
  rw [Marker.words_dropFirstWord, Text.words_unwords htail]

namespace Comment

/-- What ends a tag for the reader and for the matcher: the end of the line, a space, a tab, or a
character that is no blank. -/
def EndsTag (rest : Text) : Prop := ∀ c ∈ rest.head?, isIndent c = true ∨ isBlank c = false

instance (rest : Text) : Decidable (EndsTag rest) :=
  inferInstanceAs (Decidable (∀ c ∈ rest.head?, isIndent c = true ∨ isBlank c = false))

/-- Whether a line begins with a tag that has a marker or a closing brace right behind it. -/
def gluesTag (line : Text) : Bool :=
  match Token.scan line.trim with
  | ⟨.marker, _⟩ :: ⟨.word, word⟩ :: ⟨kind, sign⟩ :: _ =>
    '[' ∉ word && Tag.isKnown word.lower && word.lower ≠ Tag.code &&
      (kind = .marker || sign = ['}'])
  | _ => false

theorem mem_of_mem_dropStar {c : Char} {raw : Text} (h : c ∈ dropStar raw) : c ∈ raw := by
  rw [dropStar.eq_def] at h
  split at h
  · exact List.mem_cons_of_mem _ (List.mem_cons_of_mem _ h)
  · split at h
    · cases h
    · exact h

/-! ## What the reader makes of a tag -/

section Reading

variable {line word name : Text}

theorem readTagged_of_known (hname : word.takeWhile (· ≠ '[') = name)
    (hknown : Tag.isKnown name.lower = true) (hcode : name.lower ≠ Tag.code) :
    readTagged line word =
      (fun qualifiers => .tagged name.lower qualifiers
        (.leaf (Inline.format (Marker.dropLeading line name)))) <$>
      if name.lower = "param".toList then readDirection (word.dropWhile (· ≠ '['))
      else .ok [] := by
  subst hname
  rw [readTagged, if_neg hcode, if_pos hknown]
  split <;> rfl

theorem readTagged_of_unknown (hname : word.takeWhile (· ≠ '[') = name)
    (h : ¬ (Tag.isKnown name.lower = true ∧ name.lower ≠ Tag.code)) :
    readTagged line word = .ok (plainLine line) := by
  subst hname
  rw [readTagged]
  split
  · rfl
  · next hcode => rw [if_neg fun hknown => h ⟨hknown, hcode⟩]

/-- A line at the margin that begins with a marker and a word is tagged or plain. -/
theorem readTokens_of_word (hmargin : line.indentation = 0) (x : Text) (more : List Token) :
    readTokens line (⟨.marker, x⟩ :: ⟨.word, word⟩ :: more) =
      Reading.element <$> readTagged line word := by
  rw [readTokens.eq_def]
  simp only [hmargin, ne_eq, not_true_eq_false, if_false]
  rfl

/-- A line at the margin is an element. It is tagged by the word after the marker in front, and
only so. -/
theorem readLine_cases (hmargin : line.indentation = 0) :
    (∃ x w more, Token.scan line.trim = ⟨.marker, x⟩ :: ⟨.word, w⟩ :: more ∧
      readLine line = Reading.element <$> readTagged line w) ∨
    ∃ e, readLine line = .ok (.element e) ∧ ∀ tag q o, e ≠ .tagged tag q o := by
  rw [readLine]
  by_cases hblank : line.allBlank = true
  · exact .inr ⟨.separator, if_pos hblank, fun _ _ _ => Element.noConfusion⟩
  rw [if_neg hblank, readTokens.eq_def]
  simp only [hmargin, ne_eq, not_true_eq_false, if_false]
  split
  · exact .inr ⟨.bareMarker, rfl, fun _ _ _ => Element.noConfusion⟩
  · exact .inr ⟨.bareMarker, rfl, fun _ _ _ => Element.noConfusion⟩
  · next brace _ _ =>
    refine .inr ⟨if brace = ['{'] then .groupOpen else .groupClose, rfl, fun _ _ _ => ?_⟩
    split <;> exact Element.noConfusion
  · split
    · next x w more hscan => exact .inl ⟨x, w, more, hscan, rfl⟩
    · exact .inr ⟨plainLine line, rfl, fun _ _ _ => Element.noConfusion⟩

/-- A line at the margin that begins with a marker and a word is read by that word. -/
theorem readLine_of_word (hmargin : line.indentation = 0) {x : Text} {more : List Token}
    (h : Token.scan line.trim = ⟨.marker, x⟩ :: ⟨.word, word⟩ :: more) :
    readLine line = Reading.element <$> readTagged line word := by
  have hblank : ¬ line.allBlank = true := fun hblank => by
    have htrim : line.trim = [] := by
      rw [Text.trim, Text.trimStart, List.dropWhile_eq_nil_iff.2 (List.all_eq_true.1 hblank)]
      rfl
    rw [htrim] at h
    cases h
  rw [readLine, if_neg hblank, h, readTokens_of_word hmargin]

end Reading

/-! ## The same tag for both -/

/-- The matcher finds a known tag in front of a line, and the reader's word ends there as well. -/
def BeginsWithTag (line tag : Text) : Prop :=
  ∃ m w rest, Marker.leading? line = some (m, w) ∧ line.trim = m.text ++ w ++ rest ∧
    EndsTag rest ∧ w.lower = tag ∧ Tag.isKnown tag = true ∧ tag ≠ Tag.code

section BeginsWithTag

variable {line : Text}

/-- The tokens of a line that begins with a tag. -/
theorem scan_tag (m : Marker) {t : Text} (h : IsTagText t) (rest : Text) :
    Token.scan (m.text ++ t ++ rest) =
      ⟨.marker, m.text⟩ :: ⟨.word, t ++ rest.takeWhile (Token.kindOf · = .word)⟩ ::
        Token.scan (rest.dropWhile (Token.kindOf · = .word)) := by
  obtain ⟨hne, hchars⟩ := h
  have hback : (t ++ rest).head? ≠ some '\\' := by
    obtain ⟨c, t, rfl⟩ := List.exists_cons_of_ne_nil hne
    intro hc
    obtain rfl : c = '\\' := Option.some.inj hc
    exact absurd (hchars _ List.mem_cons_self).2 (by decide)
  have hword : ∀ c ∈ t ++ rest.takeWhile (Token.kindOf · = .word), Token.kindOf c = .word := by
    intro c hc
    rcases List.mem_append.1 hc with hc | hc
    · obtain ⟨hb, hsign⟩ := hchars c hc
      exact Token.kindOf_eq_word hb fun hmem => hsign (List.mem_append_left ['['] hmem)
    · simpa using List.all_eq_true.1 List.all_takeWhile c hc
  rw [List.append_assoc, Token.scan_marker_append m hback,
    ← Token.scan_append_of_word (List.append_ne_nil_of_left_ne_nil hne _) hword
      (Token.beginsNoWord_scan_dropWhile rest),
    List.append_assoc, List.takeWhile_append_dropWhile]

/-- The word that a tag begins is the tag up to its bracket. -/
theorem takeWhile_tag {t rest : Text} (h : IsTagText t) (hstem : Marker.EndsStem rest)
    (hend : EndsTag rest) :
    (t ++ rest.takeWhile (Token.kindOf · = .word)).takeWhile (· ≠ '[') = t := by
  have hbracket : ∀ c ∈ t, decide (c ≠ '[') = true := fun c hc =>
    decide_eq_true fun heq => (h.2 c hc).2 (by simp [heq])
  rw [List.takeWhile_append_of_pos hbracket]
  rcases rest with _ | ⟨c, rest⟩
  · exact List.append_nil t
  · have hc : isIndent c = true ∨ c = '[' ∨ c = '{' := by
      rcases hstem c rfl with hb | hc
      · refine (hend c rfl).imp id fun hnot => ?_
        rw [hb] at hnot
        cases hnot
      · exact .inr hc
    rcases hc with hi | rfl | rfl
    · have hkind : ¬ Token.kindOf c = .word := by
        simp only [isIndent, Bool.or_eq_true, beq_iff_eq] at hi
        rcases hi with rfl | rfl <;> decide
      rw [List.takeWhile_cons, decide_eq_false hkind]
      exact List.append_nil t
    · rw [List.takeWhile_cons, decide_eq_true (by decide : Token.kindOf '[' = .word)]
      exact List.append_nil t
    · exact List.append_nil t

/-- What the matcher finds does not depend on blanks around a line. -/
theorem leading?_trim (line : Text) : Marker.leading? line.trim = Marker.leading? line := by
  rw [Marker.leading?, Text.words_trim]
  rfl

/-- A word ends before a marker, a brace, a space, a tab or a line break, and nowhere else. -/
theorem eq_of_kindOf_ne_word {c : Char} (h : Token.kindOf c ≠ .word) :
    Token.kindOf c = .marker ∨ c = '{' ∨ c = '}' ∨ isIndent c = true ∨ c = '\n' := by
  by_cases hmarker : c = '@' ∨ c = '\\'
  · exact .inl (if_pos hmarker)
  · by_cases hbrace : c = '{' ∨ c = '}'
    · exact .inr (hbrace.imp id .inl)
    · by_cases hindent : isIndent c = true
      · exact .inr (.inr (.inr (.inl hindent)))
      · refine .inr (.inr (.inr (.inr ?_)))
        rw [Token.kindOf, if_neg hmarker, if_neg hbrace, if_neg hindent] at h
        by_contra hbreak
        exact h (if_neg hbreak)

/-- What the reader finds behind a tag without a bracket, unless something is glued to it. -/
theorem ends_of_scan {x w rest : Text}
    (hscan : Token.scan line.trim = ⟨.marker, x⟩ :: ⟨.word, w⟩ :: Token.scan rest)
    (hbracket : '[' ∉ w) (hknown : Tag.isKnown w.lower = true) (hcode : w.lower ≠ Tag.code)
    (hrest : ∀ c ∈ rest.head?, Token.kindOf c ≠ .word) (hbreak : '\n' ∉ rest)
    (hglue : gluesTag line = false) : ∀ c ∈ rest.head?, isIndent c = true ∨ c = '{' := by
  intro c hc
  obtain ⟨rest, rfl⟩ : ∃ r, rest = c :: r := by
    rcases rest with _ | ⟨d, rest⟩
    · cases hc
    · exact ⟨rest, by rw [Option.some.inj hc]⟩
  obtain ⟨⟨kind, sign⟩, more, hmore⟩ : ∃ token more, Token.scan (c :: rest) = token :: more :=
    List.exists_cons_of_ne_nil fun hnil => by
      have hconcat := Token.concat_scan (c :: rest)
      rw [hnil] at hconcat
      cases hconcat
  have hfree : ¬ (kind = .marker ∨ sign = ['}']) := by
    rw [gluesTag, hscan, hmore] at hglue
    simpa [hbracket, hknown, hcode] using hglue
  have hfirst : (⟨kind, sign⟩ : Token) ∈ (Token.scan (c :: rest)).head? := by
    rw [hmore]
    rfl
  have hkind : kind = Token.kindOf c := Token.kind_of_mem_head?_scan hfirst
  rcases eq_of_kindOf_ne_word (hrest c rfl) with hm | rfl | rfl | hi | rfl
  · exact absurd (.inl (hkind.trans hm)) hfree
  · exact .inr rfl
  · have hsign : sign = ['}'] := (Token.mk.inj (List.cons.inj hmore).1).2.symm
    exact absurd (.inr hsign) hfree
  · exact .inl hi
  · exact absurd List.mem_cons_self hbreak

/-- A tag that the reader finds is found by the matcher, unless something is glued to it. -/
theorem beginsWithTag_of_scan {x word name : Text} {more : List Token}
    (hscan : Token.scan line.trim = ⟨.marker, x⟩ :: ⟨.word, word⟩ :: more)
    (hname : word.takeWhile (· ≠ '[') = name) (hknown : Tag.isKnown name.lower = true)
    (hcode : name.lower ≠ Tag.code) (hbreak : '\n' ∉ line) (hglue : gluesTag line = false) :
    BeginsWithTag line name.lower := by
  obtain ⟨m, r, -, htrim, hr⟩ := Token.eq_append_of_scan_marker hscan
  obtain ⟨hword, rfl⟩ := Token.eq_takeWhile_of_scan_word hr.symm
  have hsplit : line.trim = m.text ++ name ++
      (word.dropWhile (· ≠ '[') ++ r.dropWhile (Token.kindOf · = .word)) := by
    rw [htrim, List.append_assoc m.text, ← List.append_assoc name, ← hname,
      List.takeWhile_append_dropWhile, hword, List.takeWhile_append_dropWhile]
  have hrest : ∀ c ∈ (r.dropWhile (Token.kindOf · = .word)).head?, Token.kindOf c ≠ .word :=
    fun c hc => of_decide_eq_false (Text.eq_false_of_mem_head?_dropWhile hc)
  have hends : ∀ c ∈ (word.dropWhile (· ≠ '[') ++ r.dropWhile (Token.kindOf · = .word)).head?,
      isIndent c = true ∨ c = '[' ∨ c = '{' := by
    rcases hq : word.dropWhile (· ≠ '[') with _ | ⟨d, q⟩
    · -- no bracket: the tag is all of the word, and what follows is another token
      have hwhole : name = word := by
        rw [← hname, ← List.takeWhile_append_dropWhile (p := (· ≠ '[')) (l := word), hq,
          List.append_nil, List.takeWhile_idem]
      subst hwhole
      have hbracket : '[' ∉ name := fun hmem =>
        ((Tag.isTagText_of_isKnown hknown).2 '[' hmem).2 (by decide)
      have hnone : '\n' ∉ r.dropWhile (Token.kindOf · = .word) := fun hmem => hbreak
        (Text.mem_of_mem_trim
          (htrim ▸ List.mem_append_right _ ((List.dropWhile_sublist _).subset hmem)))
      exact fun c hc =>
        (ends_of_scan hscan hbracket hknown hcode hrest hnone hglue c hc).imp id .inr
    · have hd : d = '[' := by
        have hfirst : d ∈ (word.dropWhile (· ≠ '[')).head? := by
          rw [hq]
          rfl
        simpa using Text.eq_false_of_mem_head?_dropWhile hfirst
      intro c hc
      exact .inr (.inl ((Option.some.inj hc).symm.trans hd))
  refine ⟨m, name, _, ?_, hsplit, fun c hc => ?_, rfl, hknown, hcode⟩
  · rw [← leading?_trim, hsplit]
    exact Marker.leading?_append (Tag.isTagText_of_isKnown hknown) fun c hc =>
      (hends c hc).imp isBlank_of_isIndent id
  · rcases hends c hc with hi | rfl | rfl
    · exact .inl hi
    · exact .inr (by decide)
    · exact .inr (by decide)

/-- What the reader makes of a line that begins with a tag. -/
theorem readLine_of_beginsWithTag {m : Marker} {w rest : Text} (hmargin : line.indentation = 0)
    (hlead : Marker.leading? line = some (m, w)) (htrim : line.trim = m.text ++ w ++ rest)
    (hend : EndsTag rest) (hknown : Tag.isKnown w.lower = true) (hcode : w.lower ≠ Tag.code) :
    (w.lower = "param".toList ∧ ∃ e, readLine line = .error e) ∨
      ∃ qualifiers, readLine line = .ok (.element (.tagged w.lower qualifiers
        (.leaf (Inline.format (Text.unwords line.words.tail))))) := by
  have htag : IsTagText w := Tag.isTagText_of_isKnown hknown
  have hstem : Marker.EndsStem rest := by
    obtain ⟨rest', htrim', hstem⟩ := Marker.eq_append_of_leading? hlead
    rwa [List.append_cancel_left (htrim.symm.trans htrim')]
  have hscan := scan_tag m htag rest
  rw [← htrim] at hscan
  rw [readLine_of_word hmargin hscan,
    readTagged_of_known (takeWhile_tag htag hstem hend) hknown hcode,
    Marker.dropLeading_of_leading? hlead, Inline.format_dropFirstWord]
  split
  · next hparam =>
    rcases readDirection _ with e | qualifiers
    · exact .inl ⟨hparam, e, rfl⟩
    · exact .inr ⟨qualifiers, rfl⟩
  · exact .inr ⟨[], rfl⟩

/-- What the reader makes of a line that does not begin with a tag. -/
theorem readLine_of_not_beginsWithTag (hmargin : line.indentation = 0) (hbreak : '\n' ∉ line)
    (hglue : gluesTag line = false) (h : ∀ tag, ¬ BeginsWithTag line tag) :
    ∃ e, readLine line = .ok (.element e) ∧ ∀ tag q o, e ≠ .tagged tag q o := by
  rcases readLine_cases hmargin with ⟨x, word, more, hscan, hread⟩ | hread
  · refine ⟨plainLine line, ?_, fun _ _ _ => Element.noConfusion⟩
    rw [hread, readTagged_of_unknown rfl fun ⟨hknown, hcode⟩ =>
      h _ (beginsWithTag_of_scan hscan rfl hknown hcode hbreak hglue)]
    rfl
  · exact hread

end BeginsWithTag

namespace State

variable {s : State} {raw : Text}

theorem step_of_element {e : Element} (hcode : s.code = none)
    (hopen : openCode? (dropStar raw) = none)
    (h : readLine (dropStar raw) = .ok (.element e)) : s.step raw = .ok (s.push e) := by
  rw [step_of_plain hcode hopen, takeLine_of_element h]
  rfl

theorem push_inj {e e' : Element} (h : s.push e = s.push e') : e = e' :=
  (List.cons.inj (congrArg State.elements h)).1

/-- **The reader and the matcher agree.** A line at the margin, outside code, that opens no code and
has nothing glued to its tag is read, unless its tag is for a parameter. What is read is tagged by
the tag that the line begins with, and by no other; then it says all of the line but the first
word. -/
theorem step_tagged_iff (hcode : s.code = none) (hbreak : '\n' ∉ raw)
    (hmargin : (dropStar raw).indentation = 0) (hopen : openCode? (dropStar raw) = none)
    (hglue : gluesTag (dropStar raw) = false) :
    (∀ e, s.step raw = .error e →
      ∃ m w, Marker.leading? (dropStar raw) = some (m, w) ∧ w.lower = "param".toList) ∧
    ∀ s', s.step raw = .ok s' →
      (∀ tag, (∃ qualifiers content, s' = s.push (.tagged tag qualifiers content)) ↔
        BeginsWithTag (dropStar raw) tag) ∧
      ∀ tag qualifiers content, s' = s.push (.tagged tag qualifiers content) →
        content = .leaf (Inline.format (Text.unwords (dropStar raw).words.tail)) := by
  have hline : '\n' ∉ dropStar raw := fun hmem => hbreak (mem_of_mem_dropStar hmem)
  by_cases htag : ∃ tag, BeginsWithTag (dropStar raw) tag
  · obtain ⟨tag, htag⟩ := htag
    have ⟨m, w, rest, hlead, htrim, hend, hlower, hknown, hnot⟩ := htag
    subst hlower
    rcases readLine_of_beginsWithTag hmargin hlead htrim hend hknown hnot with
      ⟨hparam, e, hread⟩ | ⟨qualifiers, hread⟩
    · refine ⟨fun _ _ => ⟨m, w, hlead, hparam⟩, fun s' hs' => ?_⟩
      rw [step_of_plain hcode hopen, takeLine_of_error hread] at hs'
      cases hs'
    · have hstep := step_of_element hcode hopen hread
      refine ⟨fun e he => ?_, fun s' hs' => ⟨fun tag => ⟨?_, fun hother => ?_⟩, ?_⟩⟩
      · rw [hstep] at he
        cases he
      · rintro ⟨q, o, rfl⟩
        rw [hstep] at hs'
        obtain ⟨rfl, -, -⟩ := Element.tagged.inj (push_inj (Except.ok.inj hs'))
        exact htag
      · obtain ⟨m', w', -, hlead', -, -, rfl, -, -⟩ := hother
        rw [hlead] at hlead'
        obtain ⟨-, rfl⟩ := Prod.mk.inj (Option.some.inj hlead')
        rw [hstep] at hs'
        exact ⟨qualifiers, _, (Except.ok.inj hs').symm⟩
      · rintro tag q o rfl
        rw [hstep] at hs'
        exact (Element.tagged.inj (push_inj (Except.ok.inj hs'))).2.2.symm
  · rw [not_exists] at htag
    obtain ⟨e, hread, hplain⟩ := readLine_of_not_beginsWithTag hmargin hline hglue htag
    have hstep := step_of_element hcode hopen hread
    have hpush : ∀ s', s.step raw = .ok s' → ∀ tag q o, s' ≠ s.push (.tagged tag q o) := by
      rintro s' hs' tag q o rfl
      rw [hstep] at hs'
      exact hplain tag q o (push_inj (Except.ok.inj hs'))
    refine ⟨fun e' he' => ?_, fun s' hs' => ⟨fun tag => ⟨?_, fun h => absurd h (htag tag)⟩, ?_⟩⟩
    · rw [hstep] at he'
      cases he'
    · rintro ⟨q, o, ho⟩
      exact absurd ho (hpush s' hs' tag q o)
    · exact fun tag q o ho => absurd ho (hpush s' hs' tag q o)

/-- A parameter with a direction, in capital letters and behind a star. -/
theorem step_tagged_iff_parameter :
    State.step {} "* @Param[in] n\tthe  count".toList =
        .ok (push {} (.tagged "param".toList ["in".toList] (.leaf "n the count".toList))) ∧
      BeginsWithTag "@Param[in] n\tthe  count".toList "param".toList := by
  have hstep : State.step {} "* @Param[in] n\tthe  count".toList =
      .ok (push {} (.tagged "param".toList ["in".toList] (.leaf "n the count".toList))) := rfl
  have hiff := (step_tagged_iff (s := {}) rfl (by decide) (by decide) (by decide) (by decide)).2
    _ hstep
  exact ⟨hstep, (hiff.1 "param".toList).1 ⟨_, _, rfl⟩⟩

/-- The matcher finds more than the reader makes an element of: a tag in front of a blank that is
neither a space nor a tab, and the tag of a parameter with a direction that is none. -/
theorem step_tag_before_other_blank :
    (Marker.leading? "@brief\u00a0x".toList = some (.atSign, "brief".toList) ∧
      Tag.isKnown "brief".toList = true ∧ openCode? "@brief\u00a0x".toList = none ∧
      State.step {} "@brief\u00a0x".toList = .ok (push {} (.plain (.leaf "@brief x".toList)))) ∧
    (Marker.leading? "@param[up] x".toList = some (.atSign, "param".toList) ∧
      Tag.isKnown "param".toList = true ∧ openCode? "@param[up] x".toList = none ∧
      State.step {} "@param[up] x".toList = .error { found := "up]".toList }) :=
  ⟨⟨by decide, by decide, by decide, rfl⟩, by decide, by decide, by decide, rfl⟩

end State

end Comment

end DoxygenMarkdown

import DoxygenMarkdown.Marker
import DoxygenMarkdown.Proofs.Text.Blank
import DoxygenMarkdown.Token
import Mathlib.Data.List.TakeWhile

/-!
# Markers and words as tokens

A marker is one token, unless it goes on with a second backslash (`scan_marker_append`), and so is
a longest run of characters that belong to words, whatever comes after it (`scan_append_of_word`). A
space cuts a text into parts that are scanned by themselves (`scan_append_space`). Every character
that is not blank, no brace and no marker belongs to a word (`kindOf_eq_word`).

Read the other way round: tokens that begin with a marker or with a word tell what the text begins
with (`eq_append_of_scan_marker`, `eq_takeWhile_of_scan_word`).
-/

namespace DoxygenMarkdown.Token

theorem kindOf_eq_word {c : Char} (hb : isBlank c = false) (hc : c ∉ ['@', '\\', '{', '}']) :
    kindOf c = .word := by
  have hi : ¬ isIndent c = true := fun hi => by
    rw [isBlank_of_isIndent hi] at hb
    cases hb
  have hn : c ≠ '\n' := by
    rintro rfl
    exact absurd hb (by decide)
  simp only [List.mem_cons, List.not_mem_nil, or_false, not_or] at hc
  obtain ⟨hat, hback, hopen, hclose⟩ := hc
  rw [kindOf, if_neg (not_or.2 ⟨hat, hback⟩), if_neg (not_or.2 ⟨hopen, hclose⟩), if_neg hi,
    if_neg hn]

theorem kindOf_ne_marker {c : Char} (hat : c ≠ '@') (hback : c ≠ '\\') : kindOf c ≠ .marker := by
  rw [kindOf, if_neg (not_or.2 ⟨hat, hback⟩)]
  repeat' split
  all_goals exact Kind.noConfusion

theorem scan_cons_of_word {c : Char} (h : kindOf c = .word) (t : Text) :
    scan (c :: t) = consWord c (scan t) := by
  have hc : c ≠ '\\' := by
    rintro rfl
    exact absurd h (by decide)
  rw [scan.eq_3 _ _ fun u hu => absurd hu hc, if_pos h]

/-- The first token of a text is of the kind of its first character. -/
theorem kind_of_mem_head?_scan {c : Char} {t : Text} {token : Token}
    (h : token ∈ (scan (c :: t)).head?) : token.kind = kindOf c := by
  by_cases hc : kindOf c = .word
  · rw [scan_cons_of_word hc, consWord.eq_def] at h
    rw [hc]
    split at h <;> cases h <;> rfl
  · rw [scan.eq_def] at h
    split at h
    · cases h
    · next hs =>
      cases h
      obtain ⟨rfl, -⟩ := List.cons.inj hs
      rfl
    · next hs =>
      obtain ⟨rfl, rfl⟩ := List.cons.inj hs
      rw [if_neg hc] at h
      cases h
      rfl

/-- Tokens that do not go on with a word. -/
def BeginsNoWord (tokens : List Token) : Prop := ∀ t ∈ tokens.head?, t.kind ≠ .word

instance (tokens : List Token) : Decidable (BeginsNoWord tokens) :=
  inferInstanceAs (Decidable (∀ t ∈ tokens.head?, t.kind ≠ .word))

theorem consWord_of_beginsNoWord {tokens : List Token} (h : BeginsNoWord tokens) (c : Char) :
    consWord c tokens = ⟨.word, [c]⟩ :: tokens := by
  unfold consWord
  split
  · exact absurd rfl (h _ rfl)
  · rfl

/-- A run of characters of a word is one token, unless the word goes on after it. -/
theorem scan_append_of_word {w t : Text} (hne : w ≠ []) (hw : ∀ c ∈ w, kindOf c = .word)
    (ht : BeginsNoWord (scan t)) : scan (w ++ t) = ⟨.word, w⟩ :: scan t := by
  induction w with
  | nil => exact absurd rfl hne
  | cons c w ih =>
    rw [List.cons_append, scan_cons_of_word (hw c List.mem_cons_self)]
    cases w with
    | nil => exact consWord_of_beginsNoWord ht c
    | cons d w =>
      rw [ih (List.cons_ne_nil _ _) fun e he => hw e (List.mem_cons_of_mem _ he)]
      rfl

/-- A marker is one token. -/
theorem scan_marker_append (m : Marker) {t : Text} (h : t.head? ≠ some '\\') :
    scan (m.text ++ t) = ⟨.marker, m.text⟩ :: scan t := by
  cases m with
  | twoBackslashes => rfl
  | atSign => rfl
  | backslash =>
    -- a second backslash would make it another marker
    have ht : ∀ u, '\\' = '\\' → t = '\\' :: u → False := by
      rintro u - rfl
      exact h rfl
    exact (scan.eq_3 _ _ ht).trans (if_neg (by decide))

/-- A space cuts a text into parts that are scanned by themselves. -/
theorem scan_append_space (t u : Text) :
    scan (t ++ ' ' :: u) = scan t ++ ⟨.blank, [' ']⟩ :: scan u := by
  fun_induction scan t with
  | case1 => rfl
  | case2 t ih => exact congrArg _ ih
  | case3 c t _ hc ih =>
    rw [List.cons_append, scan_cons_of_word hc, ih]
    rcases scan t with _ | ⟨⟨kind, w⟩, tokens⟩
    · rfl
    · cases kind <;> rfl
  | case4 c t hpair hc ih =>
    have hpair : ∀ v, c = '\\' → t ++ ' ' :: u = '\\' :: v → False := by
      intro v hback hv
      rcases t with _ | ⟨d, t⟩
      · cases hv
      · exact hpair t hback (congrArg (· :: t) (List.cons.inj hv).1)
    rw [List.cons_append, scan.eq_3 _ _ hpair, if_neg hc, ih]
    rfl

/-! ## The tokens that a text begins with -/

/-- What may stand behind a tag for the reader: the end, or a character that no word goes on
with. -/
theorem beginsNoWord_scan {t : Text} (h : ∀ c ∈ t.head?, kindOf c ≠ .word) :
    BeginsNoWord (scan t) := by
  intro token htoken
  rcases t with _ | ⟨c, t⟩
  · cases htoken
  · rw [kind_of_mem_head?_scan htoken]
    exact h c rfl

theorem beginsNoWord_scan_dropWhile (t : Text) :
    BeginsNoWord (scan (t.dropWhile (kindOf · = .word))) := by
  apply beginsNoWord_scan
  intro c hc
  exact of_decide_eq_false (Text.eq_false_of_mem_head?_dropWhile hc)

/-- A text that begins with a character of a word begins with a token that is a word. -/
theorem scan_eq_cons_word {c : Char} (h : kindOf c = .word) (t : Text) :
    scan (c :: t) = ⟨.word, (c :: t).takeWhile (kindOf · = .word)⟩ ::
      scan ((c :: t).dropWhile (kindOf · = .word)) := by
  have hne : (c :: t).takeWhile (kindOf · = .word) ≠ [] := by
    rw [List.takeWhile_cons, decide_eq_true h]
    exact List.cons_ne_nil _ _
  have hword : ∀ d ∈ (c :: t).takeWhile (kindOf · = .word), kindOf d = .word := fun d hd => by
    simpa using List.all_eq_true.1 List.all_takeWhile d hd
  have hscan := scan_append_of_word hne hword (beginsNoWord_scan_dropWhile (c :: t))
  rwa [List.takeWhile_append_dropWhile] at hscan

/-- Tokens that begin with a word are those of a text that begins with it. -/
theorem eq_takeWhile_of_scan_word {t w : Text} {more : List Token}
    (h : scan t = ⟨.word, w⟩ :: more) :
    w = t.takeWhile (kindOf · = .word) ∧ more = scan (t.dropWhile (kindOf · = .word)) := by
  rcases t with _ | ⟨c, t⟩
  · cases h
  · have hfirst : (⟨.word, w⟩ : Token) ∈ (scan (c :: t)).head? := by
      rw [h]
      rfl
    have hc : kindOf c = .word := (kind_of_mem_head?_scan hfirst).symm
    rw [scan_eq_cons_word hc] at h
    obtain ⟨hw, rfl⟩ := List.cons.inj h
    exact ⟨(Token.mk.inj hw).2.symm, rfl⟩

/-- Tokens that begin with a marker are those of a text that begins with it. -/
theorem eq_append_of_scan_marker {t x : Text} {more : List Token}
    (h : scan t = ⟨.marker, x⟩ :: more) :
    ∃ (m : Marker) (rest : Text), x = m.text ∧ t = m.text ++ rest ∧ more = scan rest := by
  rw [scan.eq_def] at h
  split at h
  · cases h
  · obtain ⟨hx, rfl⟩ := List.cons.inj h
    exact ⟨.twoBackslashes, _, (Token.mk.inj hx).2.symm, rfl, rfl⟩
  · next c t _ =>
    split at h
    · -- a character of a word begins no marker
      rw [consWord.eq_def] at h
      split at h <;> cases h
    · obtain ⟨hx, rfl⟩ := List.cons.inj h
      obtain ⟨hkind, rfl⟩ := Token.mk.inj hx
      by_cases hat : c = '@'
      · subst hat
        exact ⟨.atSign, t, rfl, rfl, rfl⟩
      · by_cases hback : c = '\\'
        · subst hback
          exact ⟨.backslash, t, rfl, rfl, rfl⟩
        · exact absurd hkind (kindOf_ne_marker hat hback)

end DoxygenMarkdown.Token

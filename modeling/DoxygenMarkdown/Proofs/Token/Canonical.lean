import DoxygenMarkdown.Proofs.Token
import Mathlib.Data.List.Chain

/-!
# Tokens that a text is cut into

Not every list of tokens is what some text is cut into. Each token has to be written like one of
its kind (`IsWellFormed`), and two neighbours must not run together when they are written next to
each other: two words would be one word, and a single backslash would take a backslash behind it for
its own (`CanPrecede`). Lists of tokens that are so are *canonical*.

On canonical tokens, cutting a text and writing its tokens down undo each other, and cutting yields
no others: **`scan_eq_iff`**. So a text has one list of canonical tokens, and scanning finds it.

The scanner looks at a text from its start, so all depends on how the rest of the text begins. A
token that is not a word, nor a single backslash, is cut off whatever comes after it.
-/

namespace DoxygenMarkdown.Token

/-- The characters that are tokens by themselves, or begin one that is a marker. -/
def signs : List Char := ['@', '\\', '{', '}', ' ', '\t', '\n']

/-- A token that is written like one of its kind. -/
inductive IsWellFormed : Token → Prop where
  | marker (m : Marker) : IsWellFormed ⟨.marker, m.text⟩
  | brace {c : Char} (h : c = '{' ∨ c = '}') : IsWellFormed ⟨.brace, [c]⟩
  | blank {c : Char} (h : c = ' ' ∨ c = '\t') : IsWellFormed ⟨.blank, [c]⟩
  | lineBreak : IsWellFormed ⟨.lineBreak, ['\n']⟩
  | word {w : Text} (hne : w ≠ []) (h : ∀ c ∈ w, c ∉ signs) : IsWellFormed ⟨.word, w⟩

/-- Two tokens that stay apart when the second is written right behind the first. -/
structure CanPrecede (a b : Token) : Prop where
  words : ¬ (a.kind = .word ∧ b.kind = .word)
  backslashes : ¬ (a = ⟨.marker, ['\\']⟩ ∧ b.kind = .marker ∧ b.text.head? = some '\\')

/-- Well-formed tokens that stay apart. -/
structure IsCanonical (tokens : List Token) : Prop where
  wellFormed : ∀ token ∈ tokens, token.IsWellFormed
  apart : tokens.IsChain CanPrecede

theorem kindOf_eq_word_iff {c : Char} : kindOf c = .word ↔ c ∉ signs := by
  unfold kindOf isIndent signs
  grind

/-! ## The tokens of a text are canonical -/

theorem isWellFormed_of_ne_word {c : Char} (h : kindOf c ≠ .word) :
    IsWellFormed ⟨kindOf c, [c]⟩ := by
  have hc : c ∈ signs := not_not.1 fun hc => h (kindOf_eq_word_iff.2 hc)
  simp only [signs, List.mem_cons, List.not_mem_nil, or_false] at hc
  rcases hc with rfl | rfl | rfl | rfl | rfl | rfl | rfl
  · exact .marker .atSign
  · exact .marker .backslash
  · exact .brace (.inl rfl)
  · exact .brace (.inr rfl)
  · exact .blank (.inl rfl)
  · exact .blank (.inr rfl)
  · exact .lineBreak

/-- A character of a word goes in front of well-formed tokens. -/
theorem isWellFormed_consWord {c : Char} (hc : kindOf c = .word) {tokens : List Token}
    (h : ∀ token ∈ tokens, token.IsWellFormed) :
    ∀ token ∈ consWord c tokens, token.IsWellFormed := by
  have hsign : c ∉ signs := kindOf_eq_word_iff.1 hc
  unfold consWord
  split
  · next w tokens =>
    rw [List.forall_mem_cons] at h ⊢
    refine ⟨?_, h.2⟩
    cases h.1 with
    | word hne hw => exact .word (List.cons_ne_nil c w) (List.forall_mem_cons.2 ⟨hsign, hw⟩)
  · exact List.forall_mem_cons.2
      ⟨.word (List.cons_ne_nil c []) (List.forall_mem_singleton.2 hsign), h⟩

theorem isWellFormed_of_mem_scan (t : Text) : ∀ token ∈ scan t, token.IsWellFormed := by
  fun_induction scan t with
  | case1 => exact fun token h => absurd h List.not_mem_nil
  | case2 t ih => exact List.forall_mem_cons.2 ⟨.marker .twoBackslashes, ih⟩
  | case3 c t _ hc ih => exact isWellFormed_consWord hc ih
  | case4 c t _ hc ih => exact List.forall_mem_cons.2 ⟨isWellFormed_of_ne_word hc, ih⟩

theorem IsWellFormed.text_ne_nil {token : Token} (h : token.IsWellFormed) : token.text ≠ [] := by
  cases h with
  | marker m => cases m <;> exact List.cons_ne_nil _ _
  | brace _ => exact List.cons_ne_nil _ _
  | blank _ => exact List.cons_ne_nil _ _
  | lineBreak => exact List.cons_ne_nil _ _
  | word hne _ => exact hne

/-- The first token of a text begins as the text does. -/
theorem head?_text_of_mem_scan {t : Text} {token : Token} (h : token ∈ (scan t).head?) :
    token.text.head? = t.head? := by
  obtain ⟨more, hscan⟩ := List.head?_eq_some_iff.1 h
  have hne : token.text ≠ [] := by
    apply (isWellFormed_of_mem_scan t token _).text_ne_nil
    rw [hscan]
    exact List.mem_cons_self
  obtain ⟨c, w, hw⟩ := List.exists_cons_of_ne_nil hne
  rw [← concat_scan t, hscan, concat, List.flatMap_cons, hw]
  rfl

/-- A word that grows at its start stays apart from the same tokens. -/
theorem isChain_consWord (c : Char) {tokens : List Token} (h : tokens.IsChain CanPrecede) :
    (consWord c tokens).IsChain CanPrecede := by
  unfold consWord
  split
  · rw [List.isChain_cons] at h ⊢
    exact ⟨fun b hb => ⟨(h.1 b hb).words, by simp⟩, h.2⟩
  · next hno =>
    rw [List.isChain_cons]
    refine ⟨fun b hb => ⟨?_, by simp⟩, h⟩
    rintro ⟨-, hkind⟩
    obtain ⟨more, rfl⟩ := List.head?_eq_some_iff.1 hb
    obtain ⟨kind, w⟩ := b
    subst hkind
    exact hno w more rfl

theorem isChain_scan (t : Text) : (scan t).IsChain CanPrecede := by
  fun_induction scan t with
  | case1 => exact .nil
  | case2 t ih => exact List.isChain_cons.2 ⟨fun b _ => ⟨by simp, by simp⟩, ih⟩
  | case3 c t _ _ ih => exact isChain_consWord c ih
  | case4 c t hpair hc ih =>
    refine List.isChain_cons.2 ⟨fun b hb => ⟨fun h => hc h.1, ?_⟩, ih⟩
    rintro ⟨ha, -, hhead⟩
    -- the text goes on with a second backslash, which makes it another case
    rw [head?_text_of_mem_scan hb] at hhead
    obtain ⟨u, hu⟩ := List.head?_eq_some_iff.1 hhead
    exact hpair u (List.cons.inj (Token.mk.inj ha).2).1 hu

theorem isCanonical_scan (t : Text) : IsCanonical (scan t) :=
  ⟨isWellFormed_of_mem_scan t, isChain_scan t⟩

/-! ## Canonical tokens are found again -/

/-- Behind a single backslash, tokens that stay apart from it are written without one in front. -/
theorem head?_concat_ne {tokens : List Token} (hscan : scan (concat tokens) = tokens)
    (h : ∀ b ∈ tokens.head?, CanPrecede ⟨.marker, ['\\']⟩ b) :
    (concat tokens).head? ≠ some '\\' := by
  intro hhead
  rcases tokens with _ | ⟨b, tokens⟩
  · cases hhead
  · have hfirst : b ∈ (scan (concat (b :: tokens))).head? := by
      rw [hscan]
      rfl
    have htext : b.text.head? = some '\\' := (head?_text_of_mem_scan hfirst).trans hhead
    obtain ⟨u, hu⟩ := List.head?_eq_some_iff.1 hhead
    rw [hu] at hfirst
    have hkind : b.kind = .marker := kind_of_mem_head?_scan hfirst
    exact (h b rfl).backslashes ⟨rfl, hkind, htext⟩

/-- Canonical tokens are found again after they were written down. -/
theorem scan_concat {tokens : List Token} (h : IsCanonical tokens) :
    scan (concat tokens) = tokens := by
  induction tokens with
  | nil => rfl
  | cons token tokens ih =>
    obtain ⟨hform, hapart⟩ := h
    rw [List.forall_mem_cons] at hform
    rw [List.isChain_cons] at hapart
    have hrest : scan (concat tokens) = tokens := ih ⟨hform.2, hapart.2⟩
    have hcons : concat (token :: tokens) = token.text ++ concat tokens := List.flatMap_cons
    rw [hcons]
    cases hform.1 with
    | marker m =>
      cases m with
      | twoBackslashes => exact congrArg _ hrest
      | atSign => exact congrArg _ hrest
      | backslash =>
        have hback : (concat tokens).head? ≠ some '\\' := head?_concat_ne hrest hapart.1
        rw [scan_marker_append .backslash hback, hrest]
    | brace hc =>
      rcases hc with rfl | rfl <;> exact congrArg _ hrest
    | blank hc =>
      rcases hc with rfl | rfl <;> exact congrArg _ hrest
    | lineBreak => exact congrArg _ hrest
    | word hne hw =>
      rw [scan_append_of_word hne fun c hc => kindOf_eq_word_iff.2 (hw c hc), hrest]
      rw [hrest]
      exact fun b hb hkind => (hapart.1 b hb).words ⟨rfl, hkind⟩

/-- **Cutting a text and writing tokens down undo each other on exactly the canonical tokens.** -/
theorem scan_eq_iff (t : Text) (tokens : List Token) :
    scan t = tokens ↔ concat tokens = t ∧ IsCanonical tokens := by
  constructor
  · rintro rfl
    exact ⟨concat_scan t, isCanonical_scan t⟩
  · rintro ⟨rfl, h⟩
    exact scan_concat h

end DoxygenMarkdown.Token

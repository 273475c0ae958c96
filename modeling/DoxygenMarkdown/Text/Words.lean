import DoxygenMarkdown.Text.Blank

/-!
# Words

A word is a longest run of characters without a blank. Cutting a text into its words forgets how
wide the gaps between them were; `unwords` puts one space into each gap.

The two are inverse on words (`words_unwords`), and cutting respects blanks (`words_append_blank`):
what stands left of a blank never joins what stands right of it.
-/

namespace DoxygenMarkdown.Text

/-- The words of a text, in order. -/
def words (t : Text) : List Text := (t.splitOnP isBlank).filter (· ≠ [])

/-- Words put next to each other with one space between them. -/
def unwords (ws : List Text) : Text := List.intercalate [' '] ws

@[simp] theorem words_nil : words [] = [] := rfl

/-- No word reaches across a blank. -/
theorem words_append_blank {c : Char} (hc : isBlank c = true) (x y : Text) :
    words (x ++ c :: y) = words x ++ words y := by
  unfold words
  rw [List.splitOnP_append_cons x y hc, List.filter_append]

/-- A word is not empty. -/
theorem ne_nil_of_mem_words {t w : Text} (h : w ∈ words t) : w ≠ [] := by
  simpa using (List.mem_filter.1 h).2

/-- A text without blanks is one word, or none if it is empty. -/
theorem words_of_forall_not_blank {w : Text} (hne : w ≠ []) (h : ∀ c ∈ w, isBlank c = false) :
    words w = [w] := by
  rw [words, List.splitOnP_eq_singleton fun c hc => by simpa using h c hc]
  simp [hne]

/-- Words are found again after they were put next to each other. -/
theorem words_unwords {ws : List Text} (h : ∀ w ∈ ws, w ≠ [] ∧ ∀ c ∈ w, isBlank c = false) :
    words (unwords ws) = ws := by
  induction ws with
  | nil => rfl
  | cons w ws ih =>
    have hw := h w List.mem_cons_self
    have ih := ih fun v hv => h v (List.mem_cons_of_mem _ hv)
    cases ws with
    | nil => simpa [unwords] using words_of_forall_not_blank hw.1 hw.2
    | cons v ws =>
      have e : unwords (w :: v :: ws) = w ++ ' ' :: unwords (v :: ws) := by simp [unwords]
      rw [e, words_append_blank (by decide), ih, words_of_forall_not_blank hw.1 hw.2]
      rfl

end DoxygenMarkdown.Text

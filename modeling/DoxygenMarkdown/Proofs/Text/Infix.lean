import DoxygenMarkdown.Proofs.Text.Lines
import DoxygenMarkdown.Proofs.Text.Words
import Mathlib.Data.List.Basic

/-!
# Marks in a text

A *mark* is a piece of text that is looked for in others. Where texts are put together with
something in between that no mark contains, no new mark comes up: not across a line feed
(`exists_infix_of_infix_unlines`), and not across what a line is indented by
(`infix_of_infix_append`).
-/

namespace DoxygenMarkdown.Text

variable {mark : Text}

theorem eq_nil_of_prefix_cons {c : Char} (hc : c ∉ mark) {t : Text} (h : mark <+: c :: t) :
    mark = [] := by
  rcases List.prefix_cons_iff.1 h with rfl | ⟨rest, rfl, -⟩
  · rfl
  · exact absurd List.mem_cons_self hc

/-- A mark lies on one side of a character that it does not contain. -/
theorem infix_append_cons {c : Char} (hc : c ∉ mark) {x y : Text} (h : mark <:+: x ++ c :: y) :
    mark <:+: x ∨ mark <:+: y := by
  rcases List.infix_append_iff.1 h with h | h | ⟨m, n, rfl, hm, hn⟩
  · exact .inl h
  · rcases List.infix_cons_iff.1 h with h | h
    · rw [eq_nil_of_prefix_cons hc h]
      exact .inl List.nil_infix
    · exact .inr h
  · obtain rfl := eq_nil_of_prefix_cons (fun h => hc (List.mem_append_right m h)) hn
    rw [List.append_nil]
    exact .inl hm.isInfix

/-- A mark without a line feed lies in one of several lines. -/
theorem exists_infix_of_infix_unlines (hne : mark ≠ []) (hbreak : '\n' ∉ mark) {ls : List Text}
    (h : mark <:+: unlines ls) : ∃ l ∈ ls, mark <:+: l := by
  induction ls with
  | nil => exact absurd (List.eq_nil_of_infix_nil h) hne
  | cons l ls ih =>
    rcases ls with _ | ⟨k, ls⟩
    · rw [unlines_singleton] at h
      exact ⟨l, List.mem_cons_self, h⟩
    · rw [unlines_cons (List.cons_ne_nil k ls)] at h
      rcases infix_append_cons hbreak h with h | h
      · exact ⟨l, List.mem_cons_self, h⟩
      · obtain ⟨m, hm, h⟩ := ih h
        exact ⟨m, List.mem_cons_of_mem l hm, h⟩

/-- A mark begins behind what has none of its characters. -/
theorem infix_of_infix_append {x y : Text} (hx : ∀ c ∈ mark, c ∉ x) (h : mark <:+: x ++ y) :
    mark <:+: y := by
  induction x with
  | nil => exact h
  | cons c x ih =>
    have hc : c ∉ mark := fun hc => hx c hc List.mem_cons_self
    rcases List.infix_cons_iff.1 h with h | h
    · rw [eq_nil_of_prefix_cons hc h]
      exact List.nil_infix
    · exact ih (fun d hd hmem => hx d hd (List.mem_cons_of_mem c hmem)) h

/-- A mark does not begin where a line ends. -/
theorem EndsLine.infix_of_infix_append {ending rest : Text} (hend : EndsLine ending rest)
    (hmark : '\n' ∉ mark) {l : Text} (h : mark <:+: l ++ ending) : mark <:+: l := by
  cases hend with
  | endOfText => rwa [List.append_nil] at h
  | lineFeed =>
    rcases infix_append_cons hmark h with h | h
    · exact h
    · rw [List.eq_nil_of_infix_nil h]
      exact List.nil_infix

/-- Nothing comes after a mark that a text does not hold. -/
theorem after?_dropWhile_eq_none {t : Text} (h : ¬ mark <:+: t) (p : Char → Bool) :
    after? mark (t.dropWhile p) = none := by
  cases hafter : after? mark (t.dropWhile p) with
  | none => rfl
  | some rest =>
    have hmark : mark <+: t.dropWhile p := ⟨rest, (after?_eq_some_iff.1 hafter).symm⟩
    exact absurd (hmark.isInfix.trans (List.dropWhile_suffix p).isInfix) h

/-- A line is a piece of its text. -/
theorem infix_of_mem_lines {t l : Text} (h : l ∈ lines t) : l <:+: t := infix_of_mem_splitOnP h

theorem infix_of_mem_fullLines {t l : Text} (h : l ∈ fullLines t) : l <:+: t := by
  rw [← flatten_fullLines t]
  exact List.infix_of_mem_flatten h

end DoxygenMarkdown.Text

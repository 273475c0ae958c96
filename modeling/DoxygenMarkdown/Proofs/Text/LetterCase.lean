import DoxygenMarkdown.Text.LetterCase

/-!
# Small letters have no small letters

Nothing is left to do for a text that is in small letters: **`Text.lower_lower`**. A character is
settled (`IsSmall`) if none of the rules for small letters is about it, and every character that the
rules lead to is.

For most capitals this is seen row by row. The small letters of a row stand clear of every row of
capitals (`CapitalRow.IsClearOf`): of most of them before or behind, and in between the capitals of
a row that has every second code point.

Nor does it matter to small letters in which case the letters of ASCII were written
(`Text.lower_map_toLower`): the letters around a sigma decide what becomes of it, but only by having
a case at all.
-/

namespace DoxygenMarkdown

namespace CapitalRow

/-- The small letters of one row are no capitals of another. -/
def IsClearOf (row row' : CapitalRow) : Prop :=
  row.small + (row.last - row.first) < row'.first ∨ row'.last < row.small ∨
    (row.step = 2 ∨ row.first = row.last) ∧ row'.step = 2 ∧ (row.small + row'.first) % 2 = 1

instance (row row' : CapitalRow) : Decidable (row.IsClearOf row') :=
  inferInstanceAs (Decidable (_ ∨ _ ∨ _ ∧ _ ∧ _))

theorem has_iff {row : CapitalRow} {n : Nat} :
    row.has n = true ↔ row.first ≤ n ∧ n ≤ row.last ∧ (n - row.first) % row.step = 0 := by
  simp [has, and_assoc]

/-- Where two rows are clear of each other, no small letter of one is a capital of the other. -/
theorem IsClearOf.not_has {row row' : CapitalRow} (h : row.IsClearOf row') {n : Nat}
    (hn : row.has n = true) : ¬ row'.has (row.small + (n - row.first)) = true := by
  rw [has_iff] at hn ⊢
  rintro ⟨hfirst, hlast, hstep⟩
  rcases h with h | h | ⟨hrow, hrow', hodd⟩
  · omega
  · omega
  · rw [hrow'] at hstep
    rcases hrow with hrow | hrow
    · rw [hrow] at hn
      omega
    · omega

end CapitalRow

/-- The row of the capital i with a dot, which has a small letter by a rule of its own. -/
def dottedRow : CapitalRow := ⟨0x130, 0x130, 1, 0⟩

theorem isClearOf_smallRows : ∀ row ∈ smallRows,
    (∀ row' ∈ dottedRow :: smallRows, row.IsClearOf row') ∧
      (row.small + (row.last - row.first) < 0xD800 ∨
        0xDFFF < row.small ∧ row.small + (row.last - row.first) < 0x110000) := by
  decide +kernel

/-- A character that stays as it is in small letters. -/
def IsSmall (c : Char) : Prop := c ≠ '\u03a3' ∧ c ≠ '\u0130' ∧ smallLetter c = c

instance (c : Char) : Decidable (IsSmall c) :=
  inferInstanceAs (Decidable (c ≠ '\u03a3' ∧ c ≠ '\u0130' ∧ smallLetter c = c))

/-- The small letter of a character has no small letter. -/
theorem isSmall_smallLetter {c : Char} (hsigma : c ≠ '\u03a3') (hdot : c ≠ '\u0130') :
    IsSmall (smallLetter c) := by
  cases hfind : smallRows.find? (·.has c.toNat) with
  | none =>
    have hself : smallLetter c = c := by rw [smallLetter, hfind]
    rw [hself]
    exact ⟨hsigma, hdot, hself⟩
  | some row =>
    have hhas : row.has c.toNat = true :=
      List.find?_some (p := fun row : CapitalRow => row.has c.toNat) hfind
    obtain ⟨hclear, hvalid⟩ := isClearOf_smallRows row (List.mem_of_find?_eq_some hfind)
    have hsmall : smallLetter c = Char.ofNat (row.small + (c.toNat - row.first)) := by
      rw [smallLetter, hfind]
    have hle := CapitalRow.has_iff.1 hhas
    have hcode : (smallLetter c).toNat = row.small + (c.toNat - row.first) := by
      have hchar : (row.small + (c.toNat - row.first)).isValidChar := by
        rw [Nat.isValidChar]
        omega
      rw [hsmall, Char.ofNat, dif_pos hchar]
      rfl
    have hnot : ∀ row' ∈ dottedRow :: smallRows, ¬ row'.has (smallLetter c).toNat = true := by
      intro row' hrow'
      rw [hcode]
      exact (hclear row' hrow').not_has hhas
    have hnone : smallRows.find? (·.has (smallLetter c).toNat) = none :=
      List.find?_eq_none.2 fun row' hrow' => hnot row' (List.mem_cons_of_mem _ hrow')
    refine ⟨?_, ?_, ?_⟩
    · intro heq
      rw [heq] at hnone
      revert hnone
      decide
    · intro heq
      have hdotted := hnot dottedRow List.mem_cons_self
      rw [heq] at hdotted
      exact hdotted (by decide)
    · rw [smallLetter, hnone]

namespace Text

/-- Nothing in a text of small letters has a small letter of its own. -/
theorem isSmall_of_mem_lowerAfter {c : Char} {t : Text} {before : Text}
    (h : c ∈ lowerAfter before t) : IsSmall c := by
  induction t generalizing before with
  | nil => cases h
  | cons d t ih =>
    rw [lowerAfter, List.mem_append] at h
    refine h.elim (fun h => ?_) ih
    split at h
    · have hsigma : IsSmall '\u03c2' ∧ IsSmall '\u03c3' := by decide
      split at h <;> rw [List.mem_singleton.1 h]
      · exact hsigma.1
      · exact hsigma.2
    · next hsigma =>
      split at h
      · have hdotted : ∀ c ∈ ['i', '\u0307'], IsSmall c := by decide
        exact hdotted c h
      · next hdot =>
        rw [List.mem_singleton.1 h]
        exact isSmall_smallLetter hsigma hdot

/-- A text of small letters stays as it is. -/
theorem lowerAfter_of_forall_isSmall {t : Text} (h : ∀ c ∈ t, IsSmall c) (before : Text) :
    lowerAfter before t = t := by
  induction t generalizing before with
  | nil => rfl
  | cons c t ih =>
    rw [List.forall_mem_cons] at h
    obtain ⟨⟨hsigma, hdot, hsmall⟩, ht⟩ := h
    rw [lowerAfter, if_neg hsigma, if_neg hdot, hsmall, ih ht]
    rfl

/-- **A text in small letters stays as it is.** -/
theorem lower_lower (t : Text) : t.lower.lower = t.lower :=
  lowerAfter_of_forall_isSmall (fun _ => isSmall_of_mem_lowerAfter) []

end Text

/-! ## The letters of ASCII -/

/-- The capitals of ASCII. -/
def asciiCapitals : List Char := (List.range 26).map fun n => Char.ofNat (0x41 + n)

theorem toLower_of_notMem {c : Char} (h : c ∉ asciiCapitals) : c.toLower = c := by
  refine dif_neg fun hc => h (List.mem_map.2 ⟨c.toNat - 0x41, List.mem_range.2 ?_, ?_⟩)
  · have hhigh : c.toNat ≤ 0x5A := hc.2
    omega
  · have hlow : 0x41 ≤ c.toNat := hc.1
    rw [Nat.add_sub_cancel' hlow, Char.ofNat_toNat]

/-- What does not tell the capitals of ASCII from their small letters does not see their case. -/
theorem apply_toLower {α : Type} {f : Char → α} (h : ∀ c ∈ asciiCapitals, f c.toLower = f c)
    (c : Char) : f c.toLower = f c := by
  by_cases hc : c ∈ asciiCapitals
  · exact h c hc
  · rw [toLower_of_notMem hc]

theorem smallLetter_toLower (c : Char) : smallLetter c.toLower = smallLetter c :=
  apply_toLower (f := smallLetter) (by decide) c

theorem nextIsCased_map_toLower (t : Text) : nextIsCased (t.map Char.toLower) = nextIsCased t := by
  have hignored : (fun c => !inRanges caseIgnorableRanges c) ∘ Char.toLower =
      fun c => !inRanges caseIgnorableRanges c :=
    funext (apply_toLower (f := fun c => !inRanges caseIgnorableRanges c) (by decide +kernel))
  have hcased : ∀ c : Char, inRanges casedRanges c.toLower = inRanges casedRanges c :=
    apply_toLower (f := inRanges casedRanges) (by decide)
  rw [nextIsCased, nextIsCased, List.find?_map, hignored]
  cases t.find? fun c => !inRanges caseIgnorableRanges c with
  | none => rfl
  | some c => exact hcased c

namespace Text

/-- Writing ASCII in small letters first makes no difference. -/
theorem lowerAfter_map_toLower (before t : Text) :
    lowerAfter (before.map Char.toLower) (t.map Char.toLower) = lowerAfter before t := by
  have hsigma : ∀ c : Char, c.toLower = '\u03a3' ↔ c = '\u03a3' := fun c =>
    decide_eq_decide.1 (apply_toLower (f := (decide <| · = '\u03a3')) (by decide) c)
  have hdot : ∀ c : Char, c.toLower = '\u0130' ↔ c = '\u0130' := fun c =>
    decide_eq_decide.1 (apply_toLower (f := (decide <| · = '\u0130')) (by decide) c)
  induction t generalizing before with
  | nil => rfl
  | cons c t ih =>
    rw [List.map_cons, lowerAfter, lowerAfter, ← List.map_cons, ih, smallLetter_toLower,
      nextIsCased_map_toLower, nextIsCased_map_toLower]
    simp only [hsigma, hdot]

theorem lower_map_toLower (t : Text) : lower (t.map Char.toLower) = t.lower :=
  lowerAfter_map_toLower [] t

/-- Texts that differ in the case of letters of ASCII are the same in small letters. -/
theorem lower_congr {t u : Text} (h : t.map Char.toLower = u.map Char.toLower) :
    t.lower = u.lower := by
  rw [← lower_map_toLower t, h, lower_map_toLower]

end Text

end DoxygenMarkdown

import DoxygenMarkdown.Tag
import DoxygenMarkdown.Text.LetterCase

/-!
# Known tags

The tags of a role are those of the table of roles with that role, as no tag is there twice
(`Tag.mem_named_iff`).

A known tag is made of small letters only. So whatever is a known tag after it was put in small
letters holds nothing that could end a word or a token: no blank, no marker, no bracket and no brace
(`Tag.isTagText_of_isKnown`), as none of these has a small letter of its own.
-/

namespace DoxygenMarkdown

/-- Letters that belong together, for tokens and for words: there is no blank, no marker, no bracket
and no brace among them. -/
def IsTagText (t : Text) : Prop :=
  t ≠ [] ∧ ∀ c ∈ t, isBlank c = false ∧ c ∉ ['@', '\\', '{', '}', '[']

/-! ## Known tags -/

namespace Text

/-- A character that has no small letter stays where it is. -/
theorem mem_lowerAfter {c : Char} (hsmall : smallLetter c = c) (hsigma : c ≠ '\u03a3')
    (hdot : c ≠ '\u0130') {t : Text} (h : c ∈ t) (before : Text) : c ∈ lowerAfter before t := by
  induction t generalizing before with
  | nil => cases h
  | cons d t ih =>
    rw [lowerAfter, List.mem_append]
    rcases List.mem_cons.1 h with rfl | h
    · rw [if_neg hsigma, if_neg hdot, hsmall]
      exact .inl List.mem_cons_self
    · exact .inr (ih h (d :: before))

/-- The code points of all blanks. -/
def blankCodes : List Nat := [
  0x09, 0x0A, 0x0B, 0x0C, 0x0D, 0x1C, 0x1D, 0x1E, 0x1F, 0x20, 0x85, 0xA0, 0x1680, 0x2000, 0x2001,
  0x2002, 0x2003, 0x2004, 0x2005, 0x2006, 0x2007, 0x2008, 0x2009, 0x200A, 0x2028, 0x2029, 0x202F,
  0x205F, 0x3000]

theorem toNat_mem_blankCodes {c : Char} (h : isBlank c = true) : c.toNat ∈ blankCodes := by
  simp only [isBlank, Bool.or_eq_true, Bool.and_eq_true, beq_iff_eq, decide_eq_true_eq] at h
  simp only [blankCodes, List.mem_cons, List.not_mem_nil, or_false]
  omega

/-- A blank has no small letter. -/
theorem smallLetter_of_isBlank {c : Char} (h : isBlank c = true) : smallLetter c = c := by
  have hrows : ∀ n ∈ blankCodes, smallRows.find? (·.has n) = none := by decide
  rw [smallLetter, hrows _ (toNat_mem_blankCodes h)]

end Text

namespace Tag

theorem letter_of_isKnown {tag : Text} (h : isKnown tag = true) :
    tag ≠ [] ∧ ∀ c ∈ tag, 'a' ≤ c ∧ c ≤ 'z' := by
  have hroles : ∀ entry ∈ roles,
      entry.1.toList ≠ [] ∧ ∀ c ∈ entry.1.toList, 'a' ≤ c ∧ c ≤ 'z' := by decide
  rw [isKnown, role?, Option.isSome_map] at h
  obtain ⟨entry, hentry⟩ := Option.isSome_iff_exists.1 h
  have htag := List.find?_some hentry
  rw [decide_eq_true_eq] at htag
  rw [← htag]
  exact hroles entry (List.mem_of_find?_eq_some hentry)

/-- A known tag, in any letter case, holds nothing that ends a token or a word. -/
theorem isTagText_of_isKnown {t : Text} (h : isKnown t.lower = true) : IsTagText t := by
  obtain ⟨hne, hletter⟩ := letter_of_isKnown h
  have hsign : ∀ c ∈ t, smallLetter c = c → c ≠ '\u03a3' → c ≠ '\u0130' → 'a' ≤ c ∧ c ≤ 'z' :=
    fun c hc hsmall hsigma hdot => hletter c (Text.mem_lowerAfter hsmall hsigma hdot hc [])
  refine ⟨fun ht => hne (by rw [ht]; rfl), fun c hc => ⟨?_, ?_⟩⟩
  · cases hb : isBlank c with
    | false => rfl
    | true =>
      have hcode := Text.toNat_mem_blankCodes hb
      have hnot : ∀ d : Char, d.toNat ∉ Text.blankCodes → c ≠ d := fun d hd hcd => hd (hcd ▸ hcode)
      obtain ⟨hlow, hhigh⟩ := hsign c hc (Text.smallLetter_of_isBlank hb)
        (hnot _ (by decide)) (hnot _ (by decide))
      have hlow : 0x61 ≤ c.toNat := hlow
      have hhigh : c.toNat ≤ 0x7A := hhigh
      have hcodes : ∀ n ∈ Text.blankCodes, ¬ (0x61 ≤ n ∧ n ≤ 0x7A) := by decide
      exact absurd ⟨hlow, hhigh⟩ (hcodes _ hcode)
  · intro hmem
    have hsigns : ∀ d ∈ ['@', '\\', '{', '}', '['],
        smallLetter d = d ∧ d ≠ '\u03a3' ∧ d ≠ '\u0130' ∧ ¬ ('a' ≤ d ∧ d ≤ 'z') := by decide
    obtain ⟨hsmall, hsigma, hdot, hno⟩ := hsigns c hmem
    exact hno (hsign c hc hsmall hsigma hdot)

/-! ## The tags of a role -/

/-- The tags with some role. -/
def named (r : Role) : List String := (roles.filter (·.2 = r)).map (·.1)

theorem mem_named_iff {tag : Text} {r : Role} :
    tag ∈ (named r).map String.toList ↔ role? tag = some r := by
  have hroles : ∀ entry ∈ roles, role? entry.1.toList = some entry.2 := by decide
  rw [named, List.map_map, List.mem_map]
  constructor
  · rintro ⟨entry, hentry, rfl⟩
    obtain ⟨hmem, hr⟩ := List.mem_filter.1 hentry
    rw [decide_eq_true_eq] at hr
    rw [← hr]
    exact hroles entry hmem
  · intro h
    obtain ⟨entry, hfind, rfl⟩ := Option.map_eq_some_iff.1 h
    have htag := List.find?_some hfind
    rw [decide_eq_true_eq] at htag
    exact ⟨entry, List.mem_filter.2 ⟨List.mem_of_find?_eq_some hfind, by simp⟩, htag⟩

end Tag

end DoxygenMarkdown

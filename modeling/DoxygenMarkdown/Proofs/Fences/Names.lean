import DoxygenMarkdown.Proofs.Fences.Block
import DoxygenMarkdown.Proofs.Fences.Count
import DoxygenMarkdown.Proofs.Fences.Gathering

/-!
# Names are taken off the text behind them

An entry with a name begins with it, and what is said about it is the rest of the same text, from
the first character that is not blank (`exists_of_splitName`). Nothing is cut inside of a line but
the first one that says something, so the lines above a block stay fenced (`FencedAbove`) as long as
the name holds its own fences in pairs. With the end of the text for a block, that says that the
fences of the rest are in pairs (`SplitOff.all`), and with a block of code, that it is found in the
rest (`exists_holds_of_splitName`).

The name may be a fence itself, one that opened a block: then it is not in pairs.
-/

namespace DoxygenMarkdown

open Markdown

/-- The lines of a text above some others are fenced. -/
def FencedAbove (rest : List Text) (t : Text) : Prop :=
  ∃ above, t.lines = above ++ rest ∧ Fenced pairedLines above

variable {rest : List Text} {t : Text}

theorem fencedAbove_nil_iff : FencedAbove [] t ↔ FencedText pairedLines t := by
  constructor
  · rintro ⟨above, hlines, h⟩
    rwa [FencedText, hlines, List.append_nil]
  · exact fun h => ⟨t.lines, (List.append_nil _).symm, h⟩

/-- Changing the first line leaves the lines above a block fenced, if it is not that line which
opens the block. -/
theorem FencedAbove.of_first {u l m : Text} {ls : List Text} (ht : t.lines = l :: ls)
    (hu : u.lines = m :: ls) (hrest : ∀ k ∈ rest.head?, pairedLines.opening k)
    (hl : ¬ pairedLines.opening l) (hm : pairedLines.text l → pairedLines.text m)
    (h : FencedAbove rest t) : FencedAbove rest u := by
  obtain ⟨above, hlines, habove⟩ := h
  rw [ht] at hlines
  rcases above with _ | ⟨l', above⟩
  · refine absurd (hrest l ?_) hl
    rw [← List.nil_append rest, ← hlines]
    rfl
  · obtain ⟨rfl, rfl⟩ := List.cons.inj hlines
    obtain ⟨b, hstep, hrun⟩ := habove.cons_inv
    cases hstep with
    | opening ho => exact absurd ho hl
    | text htext => exact ⟨m :: above, hu, .cons (.text (hm htext)) hrun⟩

theorem FencedAbove.of_cons {c : Char} (hc : c ≠ '`')
    (hrest : ∀ k ∈ rest.head?, pairedLines.opening k) (h : FencedAbove rest (c :: t)) :
    FencedAbove rest t := by
  have hopening : ∀ {l : Text}, ¬ pairedLines.opening (c :: l) := by
    rintro l ⟨r, hr, -⟩
    exact hc (List.cons.inj hr).1
  by_cases hb : c = '\n'
  · subst hb
    obtain ⟨above, hlines, habove⟩ := h
    rw [Text.lines_cons_break] at hlines
    rcases above with _ | ⟨l, above⟩
    · obtain ⟨r, hr, -⟩ := hrest [] (by rw [← List.nil_append rest, ← hlines]; rfl)
      cases hr
    · obtain ⟨rfl, hls⟩ := List.cons.inj hlines
      obtain ⟨b, hstep, hrun⟩ := habove.cons_inv
      cases hstep with
      | text _ => exact ⟨above, hls, hrun⟩
      | opening ho =>
        obtain ⟨r, hr, -⟩ := ho
        cases hr
  · obtain ⟨l, ls, hl⟩ := Text.lines_eq_cons t
    refine h.of_first (Text.lines_cons hb hl) hl hrest hopening fun htext => ?_
    have htext : fenceCount (c :: l) % 2 = 0 := htext
    rwa [fenceCount_cons hc] at htext

theorem FencedAbove.trimStart (hrest : ∀ k ∈ rest.head?, pairedLines.opening k)
    (h : FencedAbove rest t) : FencedAbove rest t.trimStart := by
  induction t with
  | nil => exact h
  | cons c t ih =>
    cases hc : isBlank c with
    | false => rwa [Text.trimStart_cons hc]
    | true =>
      rw [Text.trimStart, List.dropWhile_cons_of_pos hc]
      refine ih (h.of_cons ?_ hrest)
      rintro rfl
      exact absurd hc (by decide)

/-- The fences of a line are those of the word that it begins with and those behind it. -/
theorem fenceCount_name_append {name l : Text} (hl : ∀ c ∈ l.head?, isBlank c = true) :
    fenceCount (name ++ l) = fenceCount name + fenceCount l := by
  rcases l with _ | ⟨c, l⟩
  · rw [List.append_nil, fenceCount_nil, Nat.add_zero]
  · have hc : c ≠ '`' := by
      rintro rfl
      exact absurd (hl _ rfl) (by decide)
    rw [fenceCount_append_cons hc, fenceCount_cons hc]

/-- A word with its fences in pairs opens no block. -/
theorem not_opening_name_append {name l : Text} (heven : fenceCount name % 2 = 0)
    (hl : ∀ c ∈ l.head?, isBlank c = true) : ¬ pairedLines.opening (name ++ l) := by
  rintro ⟨r, hr, hr0⟩
  have hstarts : Text.startsWith name fence = true := by
    have hfence : Text.startsWith (name ++ l) fence = true := by
      rw [hr]
      rfl
    rcases l with _ | ⟨c, l⟩
    · rwa [List.append_nil] at hfence
    · have hc : c ∉ fence := by
        intro hc
        obtain rfl : c = '`' := List.eq_of_mem_replicate (n := 3) hc
        exact absurd (hl _ rfl) (by decide)
      rwa [Text.startsWith_append hc] at hfence
  have hcount : fenceCount (name ++ l) = fenceCount name + fenceCount l := fenceCount_name_append hl
  obtain ⟨after, hafter⟩ := Option.isSome_iff_exists.1 hstarts
  obtain rfl := Text.after?_eq_some_iff.1 hafter
  rw [hr, fenceCount_fence_append, fenceCount_fence_append, hr0] at hcount
  rw [fenceCount_fence_append] at heven
  omega

/-- A text without the word that it begins with, if that word holds its fences in pairs. -/
theorem FencedAbove.of_name {name u : Text} (hname : ∀ c ∈ name, isBlank c = false)
    (heven : fenceCount name % 2 = 0) (hu : ∀ c ∈ u.head?, isBlank c = true)
    (hrest : ∀ k ∈ rest.head?, pairedLines.opening k) (h : FencedAbove rest (name ++ u)) :
    FencedAbove rest u := by
  have hbreak : '\n' ∉ name := fun hc => absurd (hname _ hc) (by decide)
  obtain ⟨l, ls, hl⟩ := Text.lines_eq_cons u
  have hfirst : ∀ c ∈ l.head?, isBlank c = true := by
    intro c hc
    obtain ⟨l', rfl⟩ := List.head?_eq_some_iff.1 hc
    refine hu c ?_
    rw [← Text.unlines_lines u, hl]
    rcases ls with _ | ⟨k, ks⟩
    · rw [Text.unlines_singleton]
      rfl
    · rw [Text.unlines_cons (List.cons_ne_nil k ks)]
      rfl
  refine h.of_first (Text.lines_append_of_notMem hbreak hl) hl hrest
    (not_opening_name_append heven hfirst) fun htext => ?_
  have htext : fenceCount (name ++ l) % 2 = 0 := htext
  rw [fenceCount_name_append hfirst] at htext
  show fenceCount l % 2 = 0
  omega

/-! ## Entries -/

/-- What stands behind a name is what is left of the text of an outline. -/
theorem exists_of_splitName {content : Outline} {name : Text} {description : Option Outline}
    (h : content.splitName? = some (name, description)) :
    ∃ u, content.top.trimStart = name ++ u ∧ (∀ c ∈ name, isBlank c = false) ∧
      (∀ c ∈ u.head?, isBlank c = true) ∧
      description = if u.trimStart.isEmpty && content.sub.isEmpty then none
        else some ⟨u.trimStart, content.sub⟩ := by
  refine ⟨content.top.trimStart.dropWhile (!isBlank ·), ?_⟩
  simp only [Outline.splitName?] at h
  split at h
  · cases h
  have hparts : name = content.top.trimStart.takeWhile (!isBlank ·) ∧ description =
      if (Text.trimStart (content.top.trimStart.dropWhile (!isBlank ·))).isEmpty &&
        content.sub.isEmpty then none
      else some ⟨Text.trimStart (content.top.trimStart.dropWhile (!isBlank ·)), content.sub⟩ := by
    split at h
    · next hempty =>
      cases h
      exact ⟨rfl, (if_pos hempty).symm⟩
    · next hempty =>
      cases h
      exact ⟨rfl, (if_neg hempty).symm⟩
  obtain ⟨rfl, hdescription⟩ := hparts
  refine ⟨List.takeWhile_append_dropWhile.symm, ?_, ?_, hdescription⟩
  · intro c hc
    simpa using List.all_eq_true.1 List.all_takeWhile c hc
  · intro c hc
    have hhead := List.head?_dropWhile_not (!isBlank ·) content.top.trimStart
    rw [Option.mem_def.1 hc] at hhead
    simpa using hhead

/-- The lines above a block stay fenced behind the name. -/
theorem FencedAbove.of_splitName {content : Outline} {name u : Text}
    (htop : content.top.trimStart = name ++ u) (hname : ∀ c ∈ name, isBlank c = false)
    (hu : ∀ c ∈ u.head?, isBlank c = true) (heven : fenceCount name % 2 = 0)
    (hrest : ∀ k ∈ rest.head?, pairedLines.opening k) (h : FencedAbove rest content.top) :
    FencedAbove rest u.trimStart := by
  have hstart : FencedAbove rest (name ++ u) := htop ▸ h.trimStart hrest
  exact (hstart.of_name hname heven hu hrest).trimStart hrest

/-- What stands behind a name has its fences in pairs, if the name does. -/
theorem SplitOff.all {name : Text} {description : Option Outline}
    (h : SplitOff (FencedText pairedLines) name description) (heven : fenceCount name % 2 = 0) :
    (∀ c ∈ name, isBlank c = false) ∧ ∀ o ∈ description, o.All (FencedText pairedLines) := by
  obtain ⟨content, hall, hsplit⟩ := h
  obtain ⟨u, htop, hname, hu, hdescription⟩ := exists_of_splitName hsplit
  have hrest : FencedAbove [] u.trimStart :=
    .of_splitName htop hname hu heven (by simp) (fencedAbove_nil_iff.2 hall.top)
  refine ⟨hname, fun o ho => ?_⟩
  rw [hdescription] at ho
  split at ho
  · cases ho
  · cases ho
    exact ⟨fencedAbove_nil_iff.1 hrest, hall.sub⟩

/-- A block of code in an entry is found behind its name. -/
theorem exists_holds_of_splitName {content : Outline} {name : Text} {description : Option Outline}
    {block : List Text} {level : Nat} (h : content.Holds pairedLines block level)
    (hb : IsCodeBlock pairedLines block) (hsplit : content.splitName? = some (name, description))
    (heven : fenceCount name % 2 = 0) :
    ∃ o ∈ description, o.Holds pairedLines block level := by
  obtain ⟨u, htop, hname, hu, rfl⟩ := exists_of_splitName hsplit
  have hholds : Outline.Holds pairedLines block level ⟨u.trimStart, content.sub⟩ := by
    cases h with
    | @top _ above below habove h =>
      have hrest : ∀ k ∈ (block ++ below).head?, pairedLines.opening k := by
        obtain ⟨first, code, rfl, hfirst, -⟩ := hb
        exact fun k hk => Option.some.inj hk ▸ hfirst
      have habove : FencedAbove (block ++ below) content.top :=
        ⟨above, by rw [h, List.append_assoc], habove⟩
      obtain ⟨above', hlines, habove'⟩ := habove.of_splitName htop hname hu heven hrest
      exact .top habove' (by rw [List.append_assoc]; exact hlines)
    | item hp h => exact .item hp h
  have hempty : (u.trimStart.isEmpty && content.sub.isEmpty) = false := hholds.isEmpty_eq hb.isBlock
  rw [hempty]
  exact ⟨_, rfl, hholds⟩

end DoxygenMarkdown

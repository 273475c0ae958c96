import DoxygenMarkdown.Proofs.Text.Blank
import DoxygenMarkdown.Text.Words
import Mathlib.Data.List.TakeWhile

/-!
# Lines that are made of words

Words with one space between them begin and end with a character of a word (`unwords_eq_cons`,
`unwords_eq_concat`), so there is nothing to trim (`trim_unwords`).
-/

namespace DoxygenMarkdown.Text

/-- Words: not empty, and without blanks. -/
def AreWords (ws : List Text) : Prop := ∀ w ∈ ws, w ≠ [] ∧ ∀ c ∈ w, isBlank c = false

@[simp] theorem unwords_singleton (w : Text) : unwords [w] = w := List.intercalate_singleton

theorem unwords_cons_cons (w v : Text) (ws : List Text) :
    unwords (w :: v :: ws) = w ++ ' ' :: unwords (v :: ws) := by
  rw [unwords, List.intercalate_cons_cons, List.append_assoc]
  rfl

/-- A word is the first one of some words, whatever it is. -/
theorem exists_unwords_cons (ws : List Text) :
    ∃ more : Text, (∀ c ∈ more.head?, c = ' ') ∧ ∀ w, unwords (w :: ws) = w ++ more := by
  rcases ws with _ | ⟨v, ws⟩
  · refine ⟨[], fun c hc => absurd hc (Option.not_mem_none c), fun w => ?_⟩
    rw [unwords_singleton, List.append_nil]
  · exact ⟨' ' :: unwords (v :: ws), fun c hc => (Option.some.inj hc).symm,
      fun w => unwords_cons_cons w v ws⟩

theorem mem_unwords {ws : List Text} {w : Text} {c : Char} (hw : w ∈ ws) (hc : c ∈ w) :
    c ∈ unwords ws := by
  induction ws with
  | nil => cases hw
  | cons v ws ih =>
    rcases ws with _ | ⟨u, us⟩
    · rwa [unwords_singleton, ← List.mem_singleton.1 hw]
    · rw [unwords_cons_cons]
      rcases List.mem_cons.1 hw with rfl | hw
      · exact List.mem_append_left _ hc
      · exact List.mem_append_right _ (List.mem_cons_of_mem _ (ih hw))

theorem words_cons_of_blank {c : Char} (hc : isBlank c = true) (t : Text) :
    words (c :: t) = words t := words_append_blank hc [] t

/-- Blanks before a text do not change its words. -/
theorem words_append_of_allBlank {b : Text} (h : allBlank b = true) (t : Text) :
    words (b ++ t) = words t := by
  induction b with
  | nil => rfl
  | cons c b ih =>
    rw [allBlank, List.all_cons, Bool.and_eq_true] at h
    rw [List.cons_append, words_cons_of_blank h.1]
    exact ih h.2

/-- Blanks hold no words. -/
theorem words_of_allBlank {t : Text} (h : allBlank t = true) : words t = [] := by
  have hwords := words_append_of_allBlank h []
  rwa [List.append_nil] at hwords

/-- The first piece of a text is a start of it, and the others are pieces cut out of it. -/
theorem splitOnP_eq_cons (p : Char → Bool) (t : Text) :
    ∃ l ls, t.splitOnP p = l :: ls ∧ l <+: t ∧ ∀ m ∈ ls, m <:+: t := by
  induction t with
  | nil => exact ⟨[], [], rfl, List.nil_prefix, fun m hm => absurd hm List.not_mem_nil⟩
  | cons c t ih =>
    obtain ⟨l, ls, hl, hfirst, hrest⟩ := ih
    have htail : t <:+: c :: t := (List.suffix_cons c t).isInfix
    rw [List.splitOnP_cons_eq_if_modifyHead, hl]
    split
    · refine ⟨[], l :: ls, rfl, List.nil_prefix, List.forall_mem_cons.2 ⟨?_, ?_⟩⟩
      · exact hfirst.isInfix.trans htail
      · exact fun m hm => (hrest m hm).trans htail
    · refine ⟨c :: l, ls, rfl, (List.prefix_cons_inj c).2 hfirst, ?_⟩
      exact fun m hm => (hrest m hm).trans htail

/-- The pieces of a text are cut out of it. -/
theorem infix_of_mem_splitOnP {p : Char → Bool} {t l : Text} (h : l ∈ t.splitOnP p) : l <:+: t := by
  obtain ⟨k, ks, hk, hfirst, hrest⟩ := splitOnP_eq_cons p t
  rw [hk] at h
  rcases List.mem_cons.1 h with rfl | h
  · exact hfirst.isInfix
  · exact hrest l h

/-- A word is a piece of its text. -/
theorem infix_of_mem_words {t w : Text} (h : w ∈ words t) : w <:+: t :=
  infix_of_mem_splitOnP (List.mem_filter.1 h).1

theorem eq_false_of_mem_splitOnP {p : Char → Bool} {t l : Text} (h : l ∈ t.splitOnP p) :
    ∀ c ∈ l, p c = false := by
  induction t generalizing l with
  | nil =>
    obtain rfl : l = [] := List.mem_singleton.1 h
    exact fun c hc => absurd hc List.not_mem_nil
  | cons c t ih =>
    obtain ⟨k, ks, hk, -, -⟩ := splitOnP_eq_cons p t
    rw [List.splitOnP_cons_eq_if_modifyHead] at h
    split at h
    · rcases List.mem_cons.1 h with rfl | h
      · exact fun c hc => absurd hc List.not_mem_nil
      · exact ih h
    · next hc =>
      rw [hk, List.modifyHead_cons] at h
      rcases List.mem_cons.1 h with rfl | h
      · exact List.forall_mem_cons.2 ⟨Bool.eq_false_iff.2 hc, ih (hk ▸ List.mem_cons_self)⟩
      · exact ih (hk ▸ List.mem_cons_of_mem _ h)

theorem areWords_words (t : Text) : AreWords (words t) := fun _ hw =>
  ⟨ne_nil_of_mem_words hw, eq_false_of_mem_splitOnP (List.mem_filter.1 hw).1⟩

/-- Texts put next to each other have the words of each of them. -/
theorem words_unwords_eq_flatMap (ts : List Text) : words (unwords ts) = ts.flatMap words := by
  induction ts with
  | nil => rfl
  | cons t ts ih =>
    rcases ts with _ | ⟨u, ts⟩
    · rw [unwords_singleton, List.flatMap_singleton]
    · rw [unwords_cons_cons, words_append_blank (by decide), ih, ← List.flatMap_cons]

/-- A line of words begins with the first character of its first word. -/
theorem unwords_eq_cons {ws : List Text} (hne : ws ≠ []) (h : AreWords ws) :
    ∃ c t, unwords ws = c :: t ∧ isBlank c = false ∧ ws.head?.bind List.head? = some c := by
  rcases ws with _ | ⟨_ | ⟨c, w⟩, ws⟩
  · exact absurd rfl hne
  · exact absurd rfl (h [] List.mem_cons_self).1
  · have hc : isBlank c = false := (h (c :: w) List.mem_cons_self).2 c List.mem_cons_self
    rcases ws with _ | ⟨v, ws⟩
    · exact ⟨c, w, unwords_singleton _, hc, rfl⟩
    · exact ⟨c, w ++ ' ' :: unwords (v :: ws), unwords_cons_cons _ _ _, hc, rfl⟩

/-- A line of words ends with a character of its last word. -/
theorem unwords_eq_concat {ws : List Text} (hne : ws ≠ []) (h : AreWords ws) :
    ∃ t c, unwords ws = t ++ [c] ∧ isBlank c = false := by
  induction ws with
  | nil => exact absurd rfl hne
  | cons w ws ih =>
    cases ws with
    | nil =>
      obtain ⟨hw, hb⟩ := h w List.mem_cons_self
      refine ⟨w.dropLast, w.getLast hw, ?_, hb _ (List.getLast_mem hw)⟩
      rw [unwords_singleton, List.dropLast_concat_getLast hw]
    | cons v ws =>
      obtain ⟨t, c, ht, hc⟩ :=
        ih (List.cons_ne_nil v ws) fun u hu => h u (List.mem_cons_of_mem _ hu)
      refine ⟨w ++ ' ' :: t, c, ?_, hc⟩
      rw [unwords_cons_cons, ht, List.append_assoc, List.cons_append]

/-- A text that begins with a character and a space has that character as its first word. -/
theorem head?_words_of_space {c : Char} (hc : isBlank c = false) (t : Text) :
    (words (c :: ' ' :: t)).head? = some [c] := by
  have hword : words [c] = [[c]] :=
    words_of_forall_not_blank (List.cons_ne_nil c []) (List.forall_mem_singleton.2 hc)
  rw [← List.singleton_append, words_append_blank (by decide), hword]
  rfl

theorem trimEnd_concat {c : Char} (hc : isBlank c = false) (t : Text) :
    trimEnd (t ++ [c]) = t ++ [c] := by
  have hrev : List.dropWhile isBlank (c :: t.reverse) = c :: t.reverse := trimStart_cons hc _
  rw [trimEnd, dropEndWhile, List.reverse_append, List.reverse_singleton, List.singleton_append,
    hrev, List.reverse_cons, List.reverse_reverse]

theorem trimStart_unwords {ws : List Text} (hne : ws ≠ []) (h : AreWords ws) :
    trimStart (unwords ws) = unwords ws := by
  obtain ⟨c, t, ht, hc, -⟩ := unwords_eq_cons hne h
  rw [ht, trimStart_cons hc]

/-- There is nothing to trim around words. -/
theorem trim_unwords {ws : List Text} (hne : ws ≠ []) (h : AreWords ws) :
    trim (unwords ws) = unwords ws := by
  obtain ⟨t, c, ht, hc⟩ := unwords_eq_concat hne h
  rw [trim, trimStart_unwords hne h, ht, trimEnd_concat hc]

theorem getLast?_unwords_ne {c : Char} (hc : isBlank c = true) {ws : List Text} (hne : ws ≠ [])
    (h : AreWords ws) : (unwords ws).getLast? ≠ some c := by
  obtain ⟨t, d, ht, hd⟩ := unwords_eq_concat hne h
  rw [ht, List.getLast?_concat]
  rintro ⟨⟩
  rw [hc] at hd
  cases hd

/-- A line feed is no character of a word. -/
theorem break_notMem_unwords {ws : List Text} (h : AreWords ws) : '\n' ∉ unwords ws := by
  induction ws with
  | nil => exact List.not_mem_nil
  | cons w ws ih =>
    have hw : '\n' ∉ w := fun hc => absurd ((h w List.mem_cons_self).2 _ hc) (by decide)
    cases ws with
    | nil => rwa [unwords_singleton]
    | cons v ws =>
      rw [unwords_cons_cons, List.mem_append, List.mem_cons, not_or, not_or]
      exact ⟨hw, by decide, ih fun u hu => h u (List.mem_cons_of_mem _ hu)⟩

/-! ## The first word of a text -/

/-- A text that begins no word: it is empty, or begins with a blank. -/
def BeginsNoWord (t : Text) : Prop := ∀ c ∈ t.head?, isBlank c = true

theorem beginsNoWord_dropWhile (t : Text) : BeginsNoWord (t.dropWhile (!isBlank ·)) := by
  intro c hc
  simpa using eq_false_of_mem_head?_dropWhile hc

/-- What stands before the first blank is a word. -/
theorem words_append_of_beginsNoWord {w rest : Text} (hne : w ≠ [])
    (hw : ∀ c ∈ w, isBlank c = false) (hrest : BeginsNoWord rest) :
    words (w ++ rest) = w :: words rest := by
  have hword : words w = [w] := words_of_forall_not_blank hne hw
  rcases rest with _ | ⟨c, rest⟩
  · rw [List.append_nil, hword]
    rfl
  · rw [words_append_blank (hrest c rfl), words_cons_of_blank (hrest c rfl), hword]
    rfl

/-- Blanks behind a text do not change its words. -/
theorem words_append_of_allBlank_right (t : Text) {b : Text} (h : allBlank b = true) :
    words (t ++ b) = words t := by
  rcases b with _ | ⟨c, b⟩
  · rw [List.append_nil]
  · rw [allBlank, List.all_cons, Bool.and_eq_true] at h
    rw [words_append_blank h.1, words_of_allBlank h.2, List.append_nil]

theorem words_trimStart (t : Text) : words t.trimStart = words t := by
  have h := words_append_of_allBlank (List.all_takeWhile (p := isBlank) (l := t)) t.trimStart
  rw [trimStart, List.takeWhile_append_dropWhile] at h
  exact h.symm

theorem words_trimEnd (t : Text) : words t.trimEnd = words t := by
  have hblank : allBlank (t.reverse.takeWhile isBlank).reverse = true := by
    rw [allBlank, List.all_reverse]
    exact List.all_takeWhile
  have h := words_append_of_allBlank_right t.trimEnd hblank
  rw [trimEnd, dropEndWhile, ← List.reverse_append, List.takeWhile_append_dropWhile,
    List.reverse_reverse] at h
  exact h.symm

theorem words_trim (t : Text) : words t.trim = words t := by
  rw [trim, words_trimEnd, words_trimStart]

theorem head?_trimStart (t : Text) : ∀ c ∈ t.trimStart.head?, isBlank c = false :=
  fun _ hc => eq_false_of_mem_head?_dropWhile hc

/-- A trimmed text begins with no blank. -/
theorem head?_trim (t : Text) : ∀ c ∈ t.trim.head?, isBlank c = false := by
  intro c hc
  obtain ⟨rest, hrest⟩ : t.trim <+: t.trimStart := prefix_dropEndWhile isBlank _
  apply head?_trimStart t c
  rw [← hrest, List.head?_append, Option.mem_def.1 hc]
  rfl

/-- A text that begins with no blank begins with its first word. -/
theorem words_eq_cons {t : Text} (hne : t ≠ []) (hhead : ∀ c ∈ t.head?, isBlank c = false) :
    words t = t.takeWhile (!isBlank ·) :: words (t.dropWhile (!isBlank ·)) := by
  obtain ⟨c, t, rfl⟩ := List.exists_cons_of_ne_nil hne
  have hfirst : (c :: t).takeWhile (!isBlank ·) ≠ [] := by
    rw [List.takeWhile_cons, hhead c rfl]
    exact List.cons_ne_nil _ _
  have hword : ∀ d ∈ (c :: t).takeWhile (!isBlank ·), isBlank d = false := fun d hd => by
    simpa using List.all_eq_true.1 List.all_takeWhile d hd
  have hwords := words_append_of_beginsNoWord hfirst hword (beginsNoWord_dropWhile (c :: t))
  rwa [List.takeWhile_append_dropWhile] at hwords

end DoxygenMarkdown.Text

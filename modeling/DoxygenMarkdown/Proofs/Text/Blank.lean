import DoxygenMarkdown.Text.Blank

/-!
# The characters of a text

What holds of every character of a text is decided on the text (`decidableForallMem`). Runs of
characters with something in common, or of lines, end where something else begins (`span_append`).

A text that begins with a character that is not blank is what it is after trimming as far as its
start goes, and that character decides what a line is.
-/

namespace DoxygenMarkdown.Text

/-- What holds of each character of a text is decided on the text. There are only finitely many
characters, but too many to go through all of them. -/
instance decidableForallMem (p : Char → Prop) [DecidablePred p] (t : Text) :
    Decidable (∀ c ∈ t, p c) := List.decidableBAll p t

section Span

variable {α : Type} {p : α → Bool} {xs ys : List α}

/-- A run reaches up to what begins with something else. -/
theorem span_append (hxs : ∀ x ∈ xs, p x = true) (hys : ∀ y ∈ ys.head?, p y = false) :
    (xs ++ ys).takeWhile p = xs ∧ (xs ++ ys).dropWhile p = ys := by
  rw [List.takeWhile_append_of_pos hxs, List.dropWhile_append_of_pos hxs]
  cases ys with
  | nil => simp
  | cons y ys => simp [hys y rfl]

theorem span_append_cons (hxs : ∀ x ∈ xs, p x = true) {y : α} (hy : p y = false) (ys : List α) :
    (xs ++ y :: ys).takeWhile p = xs ∧ (xs ++ y :: ys).dropWhile p = y :: ys :=
  span_append hxs fun _ hz => Option.some.inj hz ▸ hy

theorem eq_append_of_dropWhile (h : xs.dropWhile p = ys) : xs = xs.takeWhile p ++ ys := by
  rw [← h, List.takeWhile_append_dropWhile]

/-- What stands behind something else does not matter for a run before it. -/
theorem takeWhile_append_cons {y : α} (hy : p y = false) (xs ys : List α) :
    (xs ++ y :: ys).takeWhile p = xs.takeWhile p := by
  induction xs with
  | nil => rw [List.nil_append, List.takeWhile_cons, hy]; rfl
  | cons x xs ih => rw [List.cons_append, List.takeWhile_cons, List.takeWhile_cons, ih]

theorem dropWhile_append_cons {y : α} (hy : p y = false) (xs ys : List α) :
    (xs ++ y :: ys).dropWhile p = xs.dropWhile p ++ y :: ys := by
  induction xs with
  | nil => rw [List.nil_append, List.dropWhile_cons, hy]; rfl
  | cons x xs ih =>
    rw [List.cons_append, List.dropWhile_cons, List.dropWhile_cons, ih]
    split <;> rfl

end Span

theorem trimStart_cons {c : Char} (h : isBlank c = false) (t : Text) :
    trimStart (c :: t) = c :: t := by
  rw [trimStart, List.dropWhile_cons, h]
  rfl

/-- What is trimmed off the start are blanks. -/
theorem exists_eq_append_trimStart (t : Text) :
    ∃ x, (∀ c ∈ x, isBlank c = true) ∧ t = x ++ trimStart t :=
  ⟨t.takeWhile isBlank, List.all_eq_true.1 List.all_takeWhile,
    List.takeWhile_append_dropWhile.symm⟩

/-- Trimming goes up to the first character that is not blank. -/
theorem trimStart_append_cons {x : Text} (hx : ∀ c ∈ x, isBlank c = true) {c : Char}
    (hc : isBlank c = false) (t : Text) : trimStart (x ++ c :: t) = c :: t :=
  (span_append_cons hx hc t).2

/-- Blanks before a text are trimmed off. -/
theorem trim_append_of_allBlank {b : Text} (h : allBlank b = true) (t : Text) :
    trim (b ++ t) = trim t := by
  have hstart : trimStart (b ++ t) = trimStart t :=
    List.dropWhile_append_of_pos (List.all_eq_true.1 h)
  rw [trim, hstart]
  rfl

theorem trim_of_allBlank {b : Text} (h : allBlank b = true) : trim b = [] := by
  have htrim := trim_append_of_allBlank h []
  rwa [List.append_nil] at htrim

theorem trimEnd_cons {c : Char} (h : isBlank c = false) (t : Text) :
    trimEnd (c :: t) = c :: trimEnd t := by
  have hc : List.dropWhile isBlank [c] = [c] := trimStart_cons h []
  unfold trimEnd dropEndWhile
  rw [List.reverse_cons, List.dropWhile_append, hc]
  by_cases ht : (List.dropWhile isBlank t.reverse).isEmpty = true
  · rw [if_pos ht, List.isEmpty_iff.1 ht]
    rfl
  · rw [if_neg ht, List.reverse_append]
    rfl

/-- Trimming leaves what stands before the last character that is not blank. -/
theorem trimEnd_append {x : Text} (hx : ∀ c ∈ x, isBlank c = false) (t : Text) :
    trimEnd (x ++ t) = x ++ trimEnd t := by
  induction x with
  | nil => rfl
  | cons c x ih =>
    rw [List.forall_mem_cons] at hx
    rw [List.cons_append, trimEnd_cons hx.1, ih hx.2, List.cons_append]

/-- Trimming leaves the first character that is not blank in its place. -/
theorem trim_cons {c : Char} (h : isBlank c = false) (t : Text) :
    trim (c :: t) = c :: trimEnd t := by
  rw [trim, trimStart_cons h, trimEnd_cons h]

theorem allBlank_cons {c : Char} (h : isBlank c = false) (t : Text) :
    allBlank (c :: t) = false := by
  rw [allBlank, List.all_cons, h]
  rfl

theorem indentation_cons {c : Char} (h : isBlank c = false) (t : Text) :
    indentation (c :: t) = 0 := by
  have hc : isIndent c = false := by
    cases hi : isIndent c with
    | false => rfl
    | true => rw [isBlank_of_isIndent hi] at h; cases h
  rw [indentation, List.takeWhile_cons, hc]
  rfl

theorem indentation_append {b : Text} (h : ∀ c ∈ b, isIndent c = true) (t : Text) :
    indentation (b ++ t) = b.length + indentation t := by
  rw [indentation, List.takeWhile_append_of_pos h, List.length_append]
  rfl

theorem mem_of_mem_dropEndWhile {p : Char → Bool} {c : Char} {t : Text}
    (h : c ∈ dropEndWhile p t) : c ∈ t := by
  rw [dropEndWhile, List.mem_reverse] at h
  exact List.mem_reverse.1 ((List.dropWhile_sublist p).subset h)

/-- What is left after a longest run was dropped does not go on with it. -/
theorem eq_false_of_mem_head?_dropWhile {p : Char → Bool} {c : Char} {t : Text}
    (h : c ∈ (t.dropWhile p).head?) : p c = false := by
  have hnot := List.head?_dropWhile_not p t
  rwa [Option.mem_def.1 h] at hnot

theorem prefix_dropEndWhile (p : Char → Bool) (t : Text) : dropEndWhile p t <+: t := by
  rw [dropEndWhile, ← List.reverse_suffix, List.reverse_reverse]
  exact List.dropWhile_suffix p

/-- Trimming cuts a piece out of a text. -/
theorem infix_trim (t : Text) : trim t <:+: t :=
  (prefix_dropEndWhile isBlank _).isInfix.trans (List.dropWhile_suffix isBlank).isInfix

/-- Trimming keeps what is not blank, as often as it is there. -/
theorem count_trim {c : Char} (hc : isBlank c = false) (t : Text) :
    (trim t).count c = t.count c := by
  have hdrop (u : Text) : (u.dropWhile isBlank).count c = u.count c := by
    have hblank : (u.takeWhile isBlank).count c = 0 := by
      refine List.count_eq_zero.2 fun hmem => ?_
      rw [List.all_eq_true.1 List.all_takeWhile c hmem] at hc
      cases hc
    have hcount : u.count c = (u.takeWhile isBlank).count c + (u.dropWhile isBlank).count c := by
      rw [← List.count_append, List.takeWhile_append_dropWhile]
    rw [hcount, hblank, Nat.zero_add]
  rw [trim, trimEnd, dropEndWhile, List.count_reverse, hdrop, List.count_reverse, trimStart, hdrop]

theorem mem_trim {c : Char} (hc : isBlank c = false) {t : Text} (h : c ∈ t) : c ∈ trim t := by
  rw [← List.count_pos_iff, count_trim hc]
  exact List.count_pos_iff.2 h

/-- Trimming adds nothing. -/
theorem mem_of_mem_trim {c : Char} {t : Text} (h : c ∈ trim t) : c ∈ t :=
  (List.dropWhile_sublist isBlank).subset (mem_of_mem_dropEndWhile h)

/-- What follows a character that is not in the start does not matter. -/
theorem startsWith_append {start : Text} {c : Char} (hc : c ∉ start) (t u : Text) :
    startsWith (t ++ c :: u) start = startsWith t start := by
  induction start generalizing t with
  | nil => rfl
  | cons s start ih =>
    rw [List.mem_cons, not_or] at hc
    cases t with
    | nil => simp [startsWith, Text.after?, Ne.symm hc.1]
    | cons d t =>
      by_cases hd : s = d
      · simpa [startsWith, Text.after?, hd] using ih hc.2 t
      · simp [startsWith, Text.after?, hd]

end DoxygenMarkdown.Text

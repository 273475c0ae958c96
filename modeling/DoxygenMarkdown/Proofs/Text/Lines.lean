import DoxygenMarkdown.Text.Lines

/-!
# Lines of texts that are put together

Cutting a text at its line feeds goes along with putting texts one below the other:

* a line feed is a boundary that no line crosses (`lines_append_break`);
* dropping the carriage returns of a text works on the left and on the right of a line feed by
  itself (`dropReturns_append_break`). The one exception is a carriage return right before that
  line feed: alone it would stay, here it goes.
-/

namespace DoxygenMarkdown.Text

/-- No line reaches across a line feed. -/
theorem lines_append_break (x y : Text) : lines (x ++ '\n' :: y) = lines x ++ lines y :=
  List.splitOn_append_cons_self x y

/-- A text without a line feed is one line. -/
theorem lines_of_notMem {l : Text} (h : '\n' ∉ l) : lines l = [l] := List.splitOn_eq_singleton h

/-- A line holds no line feed. -/
theorem break_notMem_of_mem_lines {t l : Text} (h : l ∈ lines t) : '\n' ∉ l := by
  induction t generalizing l with
  | nil =>
    rw [List.mem_singleton.1 h]
    exact List.not_mem_nil
  | cons c t ih =>
    rw [lines, List.splitOn_cons_eq_if_modifyHead] at h
    split at h
    · rcases List.mem_cons.1 h with rfl | h
      · exact List.not_mem_nil
      · exact ih h
    · next hc =>
      have hc : c ≠ '\n' := by simpa using hc
      rw [← lines] at h
      rcases hls : lines t with _ | ⟨k, ks⟩
      · exact absurd hls (List.splitOn_ne_nil _ _)
      · rw [hls, List.modifyHead_cons] at h
        rcases List.mem_cons.1 h with rfl | h
        · rw [List.mem_cons, not_or]
          exact ⟨Ne.symm hc, ih (hls ▸ List.mem_cons_self)⟩
        · exact ih (hls ▸ List.mem_cons_of_mem _ h)

theorem lines_ne_nil (t : Text) : lines t ≠ [] := List.splitOn_ne_nil _ _

@[simp] theorem unlines_singleton (l : Text) : unlines [l] = l := List.intercalate_singleton

/-- The first of several lines stands before a line feed. -/
theorem unlines_cons {ls : List Text} (h : ls ≠ []) (l : Text) :
    unlines (l :: ls) = l ++ '\n' :: unlines ls := by
  rw [unlines, List.intercalate_cons_of_ne_nil h, List.append_assoc]
  rfl

/-- Two lines are written like one that has a line feed in it. -/
theorem unlines_cons_cons (l k : Text) (ls : List Text) :
    unlines (l :: k :: ls) = unlines ((l ++ '\n' :: k) :: ls) := by
  cases ls with
  | nil => rw [unlines_cons (List.cons_ne_nil k []), unlines_singleton, unlines_singleton]
  | cons m ls =>
    rw [unlines_cons (List.cons_ne_nil k _), unlines_cons (List.cons_ne_nil m ls),
      unlines_cons (List.cons_ne_nil m ls), List.append_assoc]
    rfl

theorem unlines_append {ls ms : List Text} (hls : ls ≠ []) (hms : ms ≠ []) :
    unlines (ls ++ ms) = unlines ls ++ '\n' :: unlines ms := by
  induction ls with
  | nil => exact absurd rfl hls
  | cons l ls ih =>
    cases ls with
    | nil => rw [List.singleton_append, unlines_cons hms, unlines_singleton]
    | cons k ls =>
      rw [List.cons_append, unlines_cons (by simp), ih (List.cons_ne_nil k ls),
        unlines_cons (List.cons_ne_nil k ls), List.append_assoc]
      rfl

/-- Texts that are written one below the other have the lines of each of them. -/
theorem lines_unlines_flatMap {ts : List Text} (hne : ts ≠ []) :
    lines (unlines ts) = ts.flatMap lines := by
  induction ts with
  | nil => exact absurd rfl hne
  | cons t ts ih =>
    rcases ts with _ | ⟨u, ts⟩
    · simp
    · rw [unlines_cons (List.cons_ne_nil u ts), lines_append_break, ih (List.cons_ne_nil u ts)]
      rfl

theorem mem_unlines {ls : List Text} {l : Text} {c : Char} (hl : l ∈ ls) (hc : c ∈ l) :
    c ∈ unlines ls := by
  induction ls with
  | nil => cases hl
  | cons k ls ih =>
    rcases ls with _ | ⟨m, ms⟩
    · rwa [unlines_singleton, ← List.mem_singleton.1 hl]
    · rw [unlines_cons (List.cons_ne_nil m ms)]
      rcases List.mem_cons.1 hl with rfl | hl
      · exact List.mem_append_left _ hc
      · exact List.mem_append_right _ (List.mem_cons_of_mem _ (ih hl))

/-- The characters of the lines of a text are characters of the text. -/
theorem mem_of_mem_lines {t l : Text} {c : Char} (hl : l ∈ lines t) (hc : c ∈ l) : c ∈ t := by
  rw [← unlines_lines t]
  exact mem_unlines hl hc

/-- Below a line feed, lines written one below the other are lines with a line feed before each. -/
theorem cons_unlines {ls : List Text} (h : ls ≠ []) :
    '\n' :: unlines ls = ls.flatMap ('\n' :: ·) := by
  induction ls with
  | nil => exact absurd rfl h
  | cons l ls ih =>
    cases ls with
    | nil => simp
    | cons k ls =>
      rw [unlines_cons (List.cons_ne_nil k ls), ih (List.cons_ne_nil k ls)]
      rfl

theorem lines_eq_cons (t : Text) : ∃ l ls, lines t = l :: ls :=
  List.exists_cons_of_ne_nil (lines_ne_nil t)

theorem lines_eq_concat (t : Text) : ∃ ls l, lines t = ls ++ [l] :=
  ⟨(lines t).dropLast, (lines t).getLast (lines_ne_nil t),
    (List.dropLast_concat_getLast (lines_ne_nil t)).symm⟩

theorem unlines_concat_append (ls : List Text) (l m : Text) (ms : List Text) :
    unlines (ls ++ [l]) ++ unlines (m :: ms) = unlines (ls ++ (l ++ m) :: ms) := by
  induction ls with
  | nil =>
    cases ms with
    | nil => simp
    | cons n ms =>
      rw [List.nil_append, List.nil_append, unlines_singleton, unlines_cons (List.cons_ne_nil n ms),
        unlines_cons (List.cons_ne_nil n ms), List.append_assoc]
  | cons k ls ih =>
    rw [List.cons_append, List.cons_append,
      unlines_cons (List.append_ne_nil_of_right_ne_nil _ (by simp)),
      unlines_cons (List.append_ne_nil_of_right_ne_nil _ (by simp)), ← ih, List.append_assoc,
      List.cons_append]

/-- Where two texts meet, the last line of one and the first line of the other are one line. -/
theorem lines_append {x y l m : Text} {ls ms : List Text} (hx : lines x = ls ++ [l])
    (hy : lines y = m :: ms) : lines (x ++ y) = ls ++ (l ++ m) :: ms := by
  have hxy : x ++ y = unlines (ls ++ (l ++ m) :: ms) := by
    rw [← unlines_concat_append, ← hx, ← hy, unlines_lines, unlines_lines]
  have hmem : ∀ k ∈ ls ++ (l ++ m) :: ms, '\n' ∉ k := by
    have hls : ∀ k ∈ ls ++ [l], '\n' ∉ k := fun k hk => break_notMem_of_mem_lines (hx ▸ hk)
    have hms : ∀ k ∈ m :: ms, '\n' ∉ k := fun k hk => break_notMem_of_mem_lines (hy ▸ hk)
    intro k hk
    rcases List.mem_append.1 hk with hk | hk
    · exact hls k (List.mem_append_left _ hk)
    · rcases List.mem_cons.1 hk with rfl | hk
      · rw [List.mem_append, not_or]
        exact ⟨hls l List.mem_concat_self, hms m List.mem_cons_self⟩
      · exact hms k (List.mem_cons_of_mem _ hk)
  rw [hxy, lines_unlines (by simp) hmem]

/-- A text without a line feed goes to the first line. -/
theorem lines_append_of_notMem {p t l : Text} {ls : List Text} (hp : '\n' ∉ p)
    (h : lines t = l :: ls) : lines (p ++ t) = (p ++ l) :: ls := by
  have hlines : lines p = [] ++ [p] := lines_of_notMem hp
  exact lines_append hlines h

theorem lines_cons {c : Char} (hc : c ≠ '\n') {t l : Text} {ls : List Text}
    (h : lines t = l :: ls) : lines (c :: t) = (c :: l) :: ls :=
  lines_append_of_notMem (p := [c]) (by simpa using hc.symm) h

theorem lines_cons_break (t : Text) : lines ('\n' :: t) = [] :: lines t := lines_append_break [] t

theorem break_notMem_replicate (n : Nat) : '\n' ∉ List.replicate n ' ' := fun h =>
  absurd (List.eq_of_mem_replicate h) (by decide)

/-- Indenting every line but the first. -/
theorem lines_hang (n : Nat) {t l : Text} {ls : List Text} (h : lines t = l :: ls) :
    lines (hang n t) = l :: ls.map (List.replicate n ' ' ++ ·) := by
  induction t generalizing l ls with
  | nil =>
    obtain ⟨rfl, rfl⟩ := List.cons.inj h
    rfl
  | cons c t ih =>
    obtain ⟨m, ms, ht⟩ := lines_eq_cons t
    by_cases hc : c = '\n'
    · subst hc
      rw [lines_cons_break, ht] at h
      obtain ⟨rfl, rfl⟩ := List.cons.inj h
      have hhang : hang n ('\n' :: t) = '\n' :: (List.replicate n ' ' ++ hang n t) := rfl
      rw [hhang, lines_cons_break, lines_append_of_notMem (break_notMem_replicate n) (ih ht)]
      rfl
    · rw [lines_cons hc ht] at h
      obtain ⟨rfl, rfl⟩ := List.cons.inj h
      have hhang : hang n (c :: t) = c :: hang n t := by
        rw [hang, List.flatMap_cons, if_neg hc]
        rfl
      rw [hhang, lines_cons hc (ih ht)]

/-- Of a single line there is nothing to indent. -/
theorem hang_of_notMem (n : Nat) {l : Text} (h : '\n' ∉ l) : hang n l = l := by
  have hlines : lines (hang n l) = [l] := lines_hang n (lines_of_notMem h)
  rw [← unlines_lines (hang n l), hlines, unlines_singleton]

/-! ## Lines with their line feeds -/

/-- A line with the line feed that ends it is the first full line. -/
theorem fullLines_append_break {l : Text} (h : '\n' ∉ l) (t : Text) :
    fullLines (l ++ '\n' :: t) = (l ++ ['\n']) :: fullLines t := by
  induction l with
  | nil => rw [List.nil_append, fullLines, if_pos rfl, List.nil_append]
  | cons c l ih =>
    rw [List.mem_cons, not_or] at h
    rw [List.cons_append, fullLines, if_neg (Ne.symm h.1), ih h.2]
    rfl

theorem fullLines_of_notMem {l : Text} (h : '\n' ∉ l) (hne : l ≠ []) : fullLines l = [l] := by
  induction l with
  | nil => exact absurd rfl hne
  | cons c l ih =>
    rw [List.mem_cons, not_or] at h
    rw [fullLines, if_neg (Ne.symm h.1)]
    cases l with
    | nil => rfl
    | cons d l => rw [ih h.2 (List.cons_ne_nil d l), consFirst]

/-- Lines that end with line feeds, written one after the other. -/
theorem flatten_map_break {ls : List Text} (hne : ls ≠ []) :
    (ls.map (· ++ ['\n'])).flatten = unlines ls ++ ['\n'] := by
  induction ls with
  | nil => exact absurd rfl hne
  | cons l ls ih =>
    rcases ls with _ | ⟨k, ls⟩
    · simp
    · rw [List.map_cons, List.flatten_cons, ih (List.cons_ne_nil k ls),
        unlines_cons (List.cons_ne_nil k ls)]
      simp

/-- Lines above others are full lines, each with a line feed. -/
theorem fullLines_unlines_append {ls : List Text} (hne : ls ≠ []) (h : ∀ l ∈ ls, '\n' ∉ l)
    (t : Text) : fullLines (unlines ls ++ '\n' :: t) = ls.map (· ++ ['\n']) ++ fullLines t := by
  induction ls with
  | nil => exact absurd rfl hne
  | cons l ls ih =>
    rw [List.forall_mem_cons] at h
    rcases ls with _ | ⟨k, ls⟩
    · rw [unlines_singleton, fullLines_append_break h.1]
      rfl
    · rw [unlines_cons (List.cons_ne_nil k ls), List.append_assoc, List.cons_append,
        fullLines_append_break h.1, ih (List.cons_ne_nil k ls) h.2]
      rfl

/-- Above a line feed, the full lines of a text are its lines, each with a line feed. -/
theorem fullLines_append_break_eq (t u : Text) :
    fullLines (t ++ '\n' :: u) = (lines t).map (· ++ ['\n']) ++ fullLines u := by
  have hfull := fullLines_unlines_append (lines_ne_nil t) (fun l => break_notMem_of_mem_lines) u
  rwa [unlines_lines] at hfull

/-- Lines that were already written with a line feed each. -/
theorem fullLines_flatten_append {ls : List Text}
    (h : ∀ l ∈ ls, ∃ k, '\n' ∉ k ∧ l = k ++ ['\n']) (t : Text) :
    fullLines (ls.flatten ++ t) = ls ++ fullLines t := by
  induction ls with
  | nil => rfl
  | cons l ls ih =>
    rw [List.forall_mem_cons] at h
    obtain ⟨⟨k, hk, rfl⟩, hls⟩ := h
    rw [List.flatten_cons, List.append_assoc, List.append_assoc, List.singleton_append,
      fullLines_append_break hk, ih hls, List.cons_append]

/-- A text of whole lines does not mix with what is written below it. -/
theorem fullLines_append_of_endsWith {t : Text} (h : t ≠ [] → t.endsWith ['\n'] = true)
    (u : Text) : fullLines (t ++ u) = fullLines t ++ fullLines u := by
  by_cases ht : t = []
  · rw [ht]
    rfl
  · obtain ⟨x, rfl⟩ := List.isSuffixOf_iff_suffix.1 (h ht)
    rw [List.append_assoc, List.singleton_append, fullLines_append_break_eq,
      fullLines_append_break_eq, fullLines, List.append_nil]

/-- What may end a line: a line feed or, if nothing follows, the end of the text. -/
inductive EndsLine : (ending rest : Text) → Prop
  | lineFeed (rest : Text) : EndsLine ['\n'] rest
  | endOfText : EndsLine [] []

theorem fullLines_append {l ending rest : Text} (h : '\n' ∉ l) (hne : l ++ ending ≠ [])
    (hend : EndsLine ending rest) :
    fullLines (l ++ (ending ++ rest)) = (l ++ ending) :: fullLines rest := by
  cases hend with
  | lineFeed rest => exact fullLines_append_break h rest
  | endOfText =>
    rw [List.append_nil] at hne
    rw [List.append_nil, List.append_nil]
    exact fullLines_of_notMem h hne

/-- The first line of a text, and what ends it. -/
theorem exists_of_mem_head?_fullLines {t l : Text} (h : l ∈ (fullLines t).head?) :
    ∃ k ending rest, '\n' ∉ k ∧ EndsLine ending rest ∧ l = k ++ ending ∧ t = l ++ rest := by
  by_cases hbreak : '\n' ∈ t
  · obtain ⟨k, rest, rfl, hk⟩ := List.eq_append_cons_of_mem hbreak
    rw [fullLines_append_break hk] at h
    obtain rfl : k ++ ['\n'] = l := Option.some.inj h
    exact ⟨k, ['\n'], rest, hk, .lineFeed rest, rfl, List.append_cons k '\n' rest⟩
  · have hne : t ≠ [] := by
      rintro rfl
      cases h
    rw [fullLines_of_notMem hbreak hne] at h
    obtain rfl : t = l := Option.some.inj h
    exact ⟨t, [], [], hbreak, .endOfText, (List.append_nil t).symm, (List.append_nil t).symm⟩

/-- A line without a line feed stays as it is when its line feed is dropped. -/
theorem withoutBreak_of_notMem {l : Text} (h : '\n' ∉ l) : withoutBreak l = l := by
  rw [withoutBreak, dropEndWhile]
  rcases hrev : l.reverse with _ | ⟨c, t⟩
  · rw [List.reverse_eq_nil_iff.1 hrev]
    rfl
  · have hmem : c ∈ l := List.mem_reverse.1 (hrev ▸ List.mem_cons_self)
    have hc : (c == '\n') = false := beq_eq_false_iff_ne.2 fun hc => h (hc ▸ hmem)
    rw [List.dropWhile_cons, hc, if_neg Bool.false_ne_true, ← hrev, List.reverse_reverse]

theorem withoutBreak_append {l ending rest : Text} (h : '\n' ∉ l) (hend : EndsLine ending rest) :
    withoutBreak (l ++ ending) = l := by
  cases hend with
  | endOfText => rw [List.append_nil, withoutBreak_of_notMem h]
  | lineFeed =>
    have hdrop : withoutBreak (l ++ ['\n']) = withoutBreak l := by
      rw [withoutBreak, withoutBreak, dropEndWhile, dropEndWhile, List.reverse_append]
      rfl
    rw [hdrop, withoutBreak_of_notMem h]

theorem lineBreak_append {l ending rest : Text} (h : '\n' ∉ l) (hend : EndsLine ending rest) :
    lineBreak (l ++ ending) = ending := by
  cases hend with
  | lineFeed =>
    rw [lineBreak, if_pos (endsWith_append l ['\n'])]
  | endOfText =>
    rw [List.append_nil, lineBreak, if_neg]
    intro hends
    exact h ((List.isSuffixOf_iff_suffix.1 hends).subset List.mem_cons_self)

/-! ## Carriage returns -/

/-- Dropping carriage returns left of a line feed has no effect right of it, and none on it. -/
theorem dropReturns_append_break {x : Text} (h : x.getLast? ≠ some '\r') (y : Text) :
    dropReturns (x ++ '\n' :: y) = dropReturns x ++ '\n' :: dropReturns y := by
  fun_induction dropReturns x with
  | case1 => rfl
  | case2 t ih =>
    -- a carriage return and its line feed are dropped together, on both sides of the equation
    have ht : t.getLast? ≠ some '\r' := by
      intro ht
      exact h (by simp [List.getLast?_cons, ht])
    rw [List.cons_append, List.cons_append, dropReturns, ih ht]
    rfl
  | case3 c t hc ih =>
    cases t with
    | nil =>
      have hr : c ≠ '\r' := by
        rintro rfl
        exact h rfl
      simp [dropReturns, hr]
    | cons d t =>
      have ht : (d :: t).getLast? ≠ some '\r' := by
        rwa [List.getLast?_cons_cons] at h
      have hcd : ∀ u, c = '\r' → d :: t ++ '\n' :: y = '\n' :: u → False := by
        rintro u rfl hu
        obtain ⟨rfl, -⟩ := List.cons.inj hu
        exact hc t rfl rfl
      rw [List.cons_append, dropReturns.eq_3 _ _ hcd, ih ht]
      rfl

/-- A line has no carriage return that stands before a line feed. -/
theorem dropReturns_of_notMem {l : Text} (h : '\n' ∉ l) : dropReturns l = l := by
  fun_induction dropReturns l with
  | case1 => rfl
  | case2 t ih => simp at h
  | case3 c t hc ih => rw [ih fun ht => h (List.mem_cons_of_mem _ ht)]

theorem unifyBreaks_cons {c : Char} {t : Text} (h : c = '\r' → t.head? ≠ some '\n') :
    unifyBreaks (c :: t) = (if c = '\r' then '\n' else c) :: unifyBreaks t :=
  unifyBreaks.eq_3 c t fun u hc ht => h hc (by rw [ht]; rfl)

/-- A carriage return is read as a line feed, together with the one behind it if there is one. -/
theorem exists_unifyBreaks_return (t : Text) : ∃ u, unifyBreaks ('\r' :: t) = '\n' :: u := by
  by_cases ht : t.head? = some '\n'
  · obtain ⟨u, rfl⟩ := List.head?_eq_some_iff.1 ht
    exact ⟨unifyBreaks u, rfl⟩
  · exact ⟨unifyBreaks t, unifyBreaks_cons fun _ => ht⟩

/-- Up to the first carriage return, a text is what it is. -/
theorem unifyBreaks_append_of_notMem {x : Text} (h : '\r' ∉ x) (y : Text) :
    unifyBreaks (x ++ y) = x ++ unifyBreaks y := by
  induction x with
  | nil => rfl
  | cons c x ih =>
    rw [List.mem_cons, not_or] at h
    rw [List.cons_append, unifyBreaks_cons fun hc => absurd hc.symm h.1, if_neg (Ne.symm h.1),
      ih h.2]
    rfl

theorem unifyBreaks_of_notMem {t : Text} (h : '\r' ∉ t) : unifyBreaks t = t := by
  have happend := unifyBreaks_append_of_notMem h []
  rwa [List.append_nil, unifyBreaks, List.append_nil] at happend

/-- No carriage return is left. -/
theorem return_notMem_unifyBreaks (t : Text) : '\r' ∉ unifyBreaks t := by
  fun_induction unifyBreaks t with
  | case1 => exact List.not_mem_nil
  | case2 t ih => simpa using ih
  | case3 c t hc ih =>
    rw [List.mem_cons, not_or]
    refine ⟨?_, ih⟩
    split
    · decide
    · next hne => exact Ne.symm hne

/-- What stands left of a line feed has no effect right of it, unless its last character is a
carriage return: that one would end the line together with the line feed. -/
theorem unifyBreaks_append_break {x : Text} (h : x.getLast? ≠ some '\r') (y : Text) :
    unifyBreaks (x ++ '\n' :: y) = unifyBreaks x ++ '\n' :: unifyBreaks y := by
  fun_induction unifyBreaks x with
  | case1 => rfl
  | case2 t ih =>
    have ht : t.getLast? ≠ some '\r' := by
      intro ht
      exact h (by simp [List.getLast?_cons, ht])
    rw [List.cons_append, List.cons_append, unifyBreaks, ih ht]
    rfl
  | case3 c t hc ih =>
    cases t with
    | nil =>
      have hr : c ≠ '\r' := by
        rintro rfl
        exact h rfl
      simp [unifyBreaks, hr]
    | cons d t =>
      have ht : (d :: t).getLast? ≠ some '\r' := by
        rwa [List.getLast?_cons_cons] at h
      have hcd : c = '\r' → (d :: t ++ '\n' :: y).head? ≠ some '\n' := by
        rintro rfl hd
        obtain rfl : d = '\n' := Option.some.inj hd
        exact hc t rfl rfl
      rw [List.cons_append, unifyBreaks_cons hcd, ih ht]
      rfl

end DoxygenMarkdown.Text

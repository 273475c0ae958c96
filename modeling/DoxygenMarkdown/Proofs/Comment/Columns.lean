import DoxygenMarkdown.Comment.Nesting
import DoxygenMarkdown.Proofs.Outline

/-!
# Columns and depths

Items stand at columns, and a reader puts each of them at a depth. Both say what the item is below:
the last item before it that is further left, and the last one that is less deep. The two agree for
all items exactly if the items are kept in line (`Nesting.depths_parents_iff`).

* Looking back is looking at a stack. The last item, the one that it is below, and so on, are the
  only ones that an item to come can be below, and the number of those further left is the depth
  that it should get (`InStep`).
* As long as each item opens its column, the columns of these items are those that the reader has
  open. An item that goes back to a column which is not open does not open it. Either it is put one
  level too far out, or there is no level further out; then it is where it should be, but the reader
  has forgotten its column, and the next item must not be below it (`KeepsInLine`).
-/

namespace DoxygenMarkdown

/-! ## The stack that looking back is looking at -/

/-- Some values came so far, and each of them was given a depth. The values of the last item, of the
one that it is below, and so on, are a stack, from which both ways of looking back are read off. -/
structure InStep (cs ds stack : List Nat) : Prop where
  length_eq : ds.length = cs.length
  sorted : stack.Pairwise (· > ·)
  /-- A value is below the items of the stack that are smaller. Their number is its depth. -/
  lastBelow_eq (c : Nat) : lastBelow? cs c = lastBelow? ds (stack.countP (· < c))
  /-- At each depth of the stack there is an item that another one could be below. -/
  exists_depth {d : Nat} (hd : d < stack.length) :
    ∃ j, lastBelow? ds (d + 1) = some j ∧ ds[j]? = some d

theorem inStep_nil : InStep [] [] [] where
  length_eq := rfl
  sorted := .nil
  lastBelow_eq _ := rfl
  exists_depth hd := absurd hd (Nat.not_lt_zero _)

namespace InStep

variable {cs ds stack : List Nat}

/-- A value that is given the depth that belongs to it is the next one on the stack. -/
theorem concat (h : InStep cs ds stack) (c : Nat) :
    InStep (cs ++ [c]) (ds ++ [stack.countP (· < c)]) (c :: stack.filter (· < c)) where
  length_eq := by rw [List.length_append, List.length_append, h.length_eq]; rfl
  sorted := by
    refine List.pairwise_cons.2 ⟨fun d hd => ?_, h.sorted.filter _⟩
    simpa using (List.mem_filter.1 hd).2
  lastBelow_eq e := by
    rw [lastBelow?_concat, lastBelow?_concat, List.countP_cons, List.countP_filter]
    by_cases hc : c < e
    · have hcount : stack.countP (fun d => decide (d < e) && decide (d < c)) =
          stack.countP (· < c) := by
        refine List.countP_congr fun d _ => ?_
        simp only [Bool.and_eq_true, decide_eq_true_eq]
        omega
      rw [hcount, if_pos hc, if_pos (by simp [hc]), h.length_eq]
    · have hcount : stack.countP (fun d => decide (d < e) && decide (d < c)) =
          stack.countP (· < e) := by
        refine List.countP_congr fun d _ => ?_
        simp only [Bool.and_eq_true, decide_eq_true_eq]
        omega
      have hle : stack.countP (· < e) ≤ stack.countP (· < c) := by
        refine List.countP_mono_left fun d _ hd => ?_
        simp only [decide_eq_true_eq] at hd ⊢
        omega
      rw [hcount, if_neg hc, if_neg (by simpa [hc] using hle), h.lastBelow_eq]
      simp [hc]
  exists_depth := by
    intro d hd
    rw [List.length_cons, ← List.countP_eq_length_filter] at hd
    rw [lastBelow?_concat]
    by_cases hlast : stack.countP (· < c) < d + 1
    · obtain rfl : d = stack.countP (· < c) := by omega
      exact ⟨ds.length, if_pos hlast, List.getElem?_concat_length⟩
    · have hstack : stack.countP (· < c) ≤ stack.length := List.countP_le_length
      obtain ⟨j, hj, hdepth⟩ := h.exists_depth (d := d) (by omega)
      refine ⟨j, (if_neg hlast).trans hj, ?_⟩
      rw [List.getElem?_append_left (List.getElem?_eq_some_iff.1 hdepth).1, hdepth]

/-- A value that no value on the stack is smaller than is below nothing that is on it. -/
theorem concat_of_le (h : InStep cs ds stack) {c : Nat} (hc : ∀ d ∈ stack, c ≤ d) :
    lastBelow? ds 0 = lastBelow? cs c ∧ InStep (cs ++ [c]) (ds ++ [0]) [c] := by
  have hfilter : stack.filter (· < c) = [] :=
    List.filter_eq_nil_iff.2 fun d hd => by simpa using hc d hd
  have hcount : stack.countP (· < c) = 0 := by
    rw [List.countP_eq_length_filter, hfilter, List.length_nil]
  have hnext := h.concat c
  rw [hfilter, hcount] at hnext
  exact ⟨by rw [h.lastBelow_eq c, hcount], hnext⟩

/-- A value that is put one level too far out is below something else. -/
theorem lastBelow?_ne (h : InStep cs ds stack) {c d : Nat} (hd : d + 1 = stack.countP (· < c)) :
    lastBelow? ds d ≠ lastBelow? cs c := by
  have hle : stack.countP (· < c) ≤ stack.length := List.countP_le_length
  obtain ⟨j, hj, hdepth⟩ := h.exists_depth (d := d) (by omega)
  rw [h.lastBelow_eq c, ← hd]
  intro heq
  obtain ⟨⟨e, he, hlt⟩, -⟩ := lastBelow?_eq_some_iff.1 (heq.trans hj)
  rw [hdepth, Option.some.injEq] at he
  omega

end InStep

/-! ## The columns of a reader -/

/-- Columns are the same or at least two apart. -/
def AreApart (cs : List Nat) : Prop := ∀ c ∈ cs, ∀ d ∈ cs, c = d ∨ c + 2 ≤ d ∨ d + 2 ≤ c

instance (cs : List Nat) : Decidable (AreApart cs) :=
  inferInstanceAs (Decidable (∀ c ∈ cs, ∀ d ∈ cs, c = d ∨ c + 2 ≤ d ∨ d + 2 ≤ c))

/-- Items at some columns are kept in line, from some columns on that are open, the innermost first:
an item is not left of the innermost one, or it goes back to one that is open. Otherwise it has to
be left of all of them, and the next item must not be right of it. -/
def KeepsInLine (opened : List Nat) : List Nat → Prop
  | [] => True
  | c :: cs =>
    if (∀ d ∈ opened.head?, d ≤ c) ∨ c ∈ opened then
      KeepsInLine (c :: opened.filter (· < c)) cs
    else (∀ d ∈ opened, c < d) ∧ (∀ d ∈ cs.head?, d ≤ c) ∧ KeepsInLine [] cs

instance decidableKeepsInLine : (opened cs : List Nat) → Decidable (KeepsInLine opened cs)
  | _, [] => isTrue trivial
  | opened, c :: cs =>
    have := decidableKeepsInLine (c :: opened.filter (· < c)) cs
    have := decidableKeepsInLine [] cs
    inferInstanceAs (Decidable (if (∀ d ∈ opened.head?, d ≤ c) ∨ c ∈ opened then
      KeepsInLine (c :: opened.filter (· < c)) cs
    else (∀ d ∈ opened, c < d) ∧ (∀ d ∈ cs.head?, d ≤ c) ∧ KeepsInLine [] cs))

namespace Comment.Nesting

/-- The depths that items at some columns are put at. -/
def depths (n : Nesting) : List Nat → List Nat
  | [] => []
  | c :: cs => (n.enter c).depth :: depths (n.enter c) cs

/-- An item is at most one level deeper than the one before it. -/
theorem depth_enter_le (n : Nesting) (c : Nat) : (n.enter c).depth ≤ n.depth + 1 := by
  have hdrop : (n.columns.dropWhile (c + 1 < ·)).length ≤ n.columns.length :=
    (List.dropWhile_sublist _).length_le
  rw [enter]
  split
  · simp only [depth, List.length_cons]
    omega
  split
  · simp only [depth]
    omega
  · omega

variable {stack : List Nat} {c : Nat}

/-- Closing the columns that are further right keeps those that are not. -/
theorem dropWhile_eq_filter (hs : stack.Pairwise (· > ·)) (hc : AreApart (c :: stack)) :
    stack.dropWhile (c + 1 < ·) = stack.filter (· ≤ c) := by
  induction stack with
  | nil => rfl
  | cons d stack ih =>
    obtain ⟨hd, hs⟩ := List.pairwise_cons.1 hs
    have happart := hc c List.mem_cons_self d (List.mem_cons_of_mem _ List.mem_cons_self)
    by_cases hle : d ≤ c
    · rw [List.dropWhile_cons_of_neg (by simp; omega), List.filter_eq_self.2]
      refine List.forall_mem_cons.2 ⟨by simpa using hle, fun e he => ?_⟩
      simpa using Nat.le_of_lt (Nat.lt_of_lt_of_le (hd e he) hle)
    · rw [List.dropWhile_cons_of_pos (by simp; omega), List.filter_cons_of_neg (by simpa using hle)]
      refine ih hs fun e he f hf => hc e ?_ f ?_
      · exact List.cons_subset_cons c (List.subset_cons_self d stack) he
      · exact List.cons_subset_cons c (List.subset_cons_self d stack) hf

theorem filter_le_of_mem (hs : stack.Pairwise (· > ·)) (hc : c ∈ stack) :
    stack.filter (· ≤ c) = c :: stack.filter (· < c) := by
  induction stack with
  | nil => cases hc
  | cons d stack ih =>
    obtain ⟨hd, hs⟩ := List.pairwise_cons.1 hs
    rcases List.mem_cons.1 hc with rfl | hc
    · have hsame : ∀ e ∈ stack, decide (e ≤ c) = decide (e < c) := by
        intro e he
        have hlt := hd e he
        exact decide_eq_decide.2 (by omega)
      rw [List.filter_cons_of_pos (by simp), List.filter_cons_of_neg (by simp),
        List.filter_congr hsame]
    · rw [List.filter_cons_of_neg (by simpa using hd c hc), List.filter_cons_of_neg
        (by simpa using Nat.le_of_lt (hd c hc)), ih hs hc]

theorem filter_le_of_notMem (hc : c ∉ stack) : stack.filter (· ≤ c) = stack.filter (· < c) := by
  refine List.filter_congr fun d hd => ?_
  have hne : d ≠ c := fun h => hc (h ▸ hd)
  simpa using by omega

/-- An item that goes back closes the columns that are further right, and opens none. -/
theorem enter_of_lt_head {d : Nat} (hs : (d :: stack).Pairwise (· > ·))
    (hc : AreApart (c :: d :: stack)) (hlt : c < d) :
    (Nesting.mk (d :: stack)).enter c = ⟨(d :: stack).filter (· ≤ c)⟩ := by
  have happart := hc c List.mem_cons_self d (List.mem_cons_of_mem _ List.mem_cons_self)
  have hinnermost : (Nesting.mk (d :: stack)).innermost = d := rfl
  rw [enter, hinnermost, if_neg (by omega), if_pos (by omega), dropWhile_eq_filter hs hc]

/-- An item that is in line opens its column, if that is not open already, and closes those that are
further right. -/
theorem enter_of_inLine (hs : stack.Pairwise (· > ·)) (hc : AreApart (c :: stack)) (hm : 2 ≤ c)
    (h : (∀ d ∈ stack.head?, d ≤ c) ∨ c ∈ stack) :
    (Nesting.mk stack).enter c = ⟨c :: stack.filter (· < c)⟩ := by
  rcases stack with _ | ⟨d, stack⟩
  · exact if_pos (by simpa [innermost] using hm)
  have hinnermost : (Nesting.mk (d :: stack)).innermost = d := rfl
  have happart := hc c List.mem_cons_self d (List.mem_cons_of_mem _ List.mem_cons_self)
  have hbelow : ∀ e ∈ stack, e < d := (List.pairwise_cons.1 hs).1
  rcases Nat.lt_trichotomy c d with hlt | rfl | hlt
  · have hmem : c ∈ d :: stack := h.resolve_left fun hhead => absurd (hhead d rfl) (by omega)
    rw [enter_of_lt_head hs hc hlt, filter_le_of_mem hs hmem]
  · have hkeep : stack.filter (· < c) = stack :=
      List.filter_eq_self.2 fun e he => by simpa using hbelow e he
    rw [enter, hinnermost, if_neg (by omega), if_neg (by omega),
      List.filter_cons_of_neg (by simp), hkeep]
  · have hkeep : (d :: stack).filter (· < c) = d :: stack := by
      refine List.filter_eq_self.2 (List.forall_mem_cons.2 ⟨by simpa using hlt, fun e he => ?_⟩)
      simpa using Nat.lt_trans (hbelow e he) hlt
    rw [enter, hinnermost, if_pos (by omega), hkeep]

/-- An item that goes back to a column which is not open opens none. -/
theorem enter_of_not_inLine (hs : stack.Pairwise (· > ·)) (hc : AreApart (c :: stack))
    (h : ¬ ((∀ d ∈ stack.head?, d ≤ c) ∨ c ∈ stack)) :
    (Nesting.mk stack).enter c = ⟨stack.filter (· < c)⟩ := by
  obtain ⟨hhead, hmem⟩ := not_or.1 h
  rcases stack with _ | ⟨d, stack⟩
  · exact absurd (fun d hd => by cases hd) hhead
  have hlt : c < d := by
    by_contra hle
    exact hhead fun e he => Option.some.inj he ▸ Nat.le_of_not_lt hle
  rw [enter_of_lt_head hs hc hlt, filter_le_of_notMem hmem]

/-- An item in line is put at the depth that belongs to it. -/
theorem depth_of_inLine (stack : List Nat) (c : Nat) :
    (Nesting.mk (c :: stack.filter (· < c))).depth = stack.countP (· < c) := by
  rw [depth, List.countP_eq_length_filter]
  rfl

/-- An item that goes back to a column which is not open is put one level too far out, unless it is
left of all columns. -/
theorem depth_of_not_inLine (hmem : c ∉ stack) (hleft : ¬ ∀ d ∈ stack, c < d) :
    (Nesting.mk (stack.filter (· < c))).depth + 1 = stack.countP (· < c) := by
  have hpos : 0 < stack.countP (· < c) := by
    by_contra hzero
    refine hleft fun d hd => ?_
    have hne : d ≠ c := fun h => hmem (h ▸ hd)
    have hnot : ¬ d < c := fun hlt => hzero (List.countP_pos_iff.2 ⟨d, hd, by simpa using hlt⟩)
    omega
  rw [depth, ← List.countP_eq_length_filter]
  omega

theorem AreApart.subset {cs ds : List Nat} (h : AreApart ds) (hcs : cs ⊆ ds) : AreApart cs :=
  fun c hc d hd => h c (hcs hc) d (hcs hd)

/-- After an item in line, the columns that are open and those to come are apart. -/
theorem areApart_next {cs : List Nat} (h : AreApart (stack ++ c :: cs)) :
    AreApart (c :: stack.filter (· < c) ++ cs) := by
  refine AreApart.subset h fun d hd => ?_
  rcases List.mem_append.1 hd with hd | hd
  · rcases List.mem_cons.1 hd with rfl | hd
    · exact List.mem_append_right _ List.mem_cons_self
    · exact List.mem_append_left _ (List.mem_filter.1 hd).1
  · exact List.mem_append_right _ (List.mem_cons_of_mem _ hd)

/-- Items are below the last one further left exactly if they are kept in line. The induction is on
the items to come, at the same time for a reader that has the stack open and for one that has
forgotten the only column on it. -/
theorem depths_parents (cs : List Nat) (hm : ∀ c ∈ cs, 2 ≤ c) :
    (∀ {ps ds stack : List Nat}, InStep ps ds stack → AreApart (stack ++ cs) →
      (parentsAfter ds (depths ⟨stack⟩ cs) = parentsAfter ps cs ↔ KeepsInLine stack cs)) ∧
    (∀ {ps ds : List Nat} {b : Nat}, InStep ps ds [b] → AreApart (b :: cs) →
      (parentsAfter ds (depths {} cs) = parentsAfter ps cs ↔
        (∀ d ∈ cs.head?, d ≤ b) ∧ KeepsInLine [] cs)) := by
  induction cs with
  | nil => exact ⟨fun _ _ => by simp [depths, parentsAfter, KeepsInLine],
      fun _ _ => by simp [depths, parentsAfter, KeepsInLine]⟩
  | cons c cs ih =>
    obtain ⟨hc, hm⟩ := List.forall_mem_cons.1 hm
    obtain ⟨ihOpened, ihForgotten⟩ := ih hm
    constructor
    · intro ps ds stack h happart
      have hstack : AreApart (c :: stack) :=
        AreApart.subset happart (List.cons_subset.2 ⟨by simp, List.subset_append_left _ _⟩)
      rw [depths, parentsAfter, parentsAfter, List.cons.injEq, KeepsInLine]
      by_cases hline : (∀ d ∈ stack.head?, d ≤ c) ∨ c ∈ stack
      · rw [if_pos hline, enter_of_inLine h.sorted hstack hc hline, depth_of_inLine,
          h.lastBelow_eq c]
        exact (and_iff_right rfl).trans (ihOpened (h.concat c) (areApart_next happart))
      rw [if_neg hline, enter_of_not_inLine h.sorted hstack hline]
      by_cases hleft : ∀ d ∈ stack, c < d
      · -- the item is put where it belongs, but its column is forgotten
        obtain ⟨hlast, hnext⟩ := h.concat_of_le fun d hd => Nat.le_of_lt (hleft d hd)
        have hnone : stack.filter (· < c) = [] :=
          List.filter_eq_nil_iff.2 fun d hd => by simpa using Nat.le_of_lt (hleft d hd)
        have hrest : AreApart (c :: cs) := AreApart.subset happart (List.subset_append_right _ _)
        rw [hnone, and_iff_right hleft]
        exact (and_iff_right hlast).trans (ihForgotten hnext hrest)
      · have hdepth := depth_of_not_inLine (not_or.1 hline).2 hleft
        exact iff_of_false (fun hsame => h.lastBelow?_ne hdepth hsame.1)
          fun hkept => hleft hkept.1
    · intro ps ds b h happart
      have hopened : (Nesting.mk []).enter c = ⟨[c]⟩ := if_pos (by simpa [innermost] using hc)
      have hline : (∀ d ∈ ([] : List Nat).head?, d ≤ c) ∨ c ∈ ([] : List Nat) :=
        .inl fun d hd => by cases hd
      rw [depths, parentsAfter, parentsAfter, List.cons.injEq, KeepsInLine, if_pos hline, hopened,
        List.filter_nil]
      by_cases hle : c ≤ b
      · obtain ⟨hlast, hnext⟩ := h.concat_of_le (List.forall_mem_singleton.2 hle)
        have hrest : AreApart ([c] ++ cs) := AreApart.subset happart (List.subset_cons_self _ _)
        rw [and_iff_right (fun d hd => Option.some.inj hd ▸ hle)]
        exact (and_iff_right hlast).trans (ihOpened hnext hrest)
      · -- the item is right of the one that was forgotten, but is not put below it
        have hdepth : 0 + 1 = [b].countP (· < c) := by
          rw [List.countP_cons_of_pos (by simpa using hle), List.countP_nil]
        exact iff_of_false (fun hsame => h.lastBelow?_ne hdepth hsame.1)
          fun hkept => hle (hkept.1 c rfl)

/-- **Items are below the last one further left exactly if they are kept in line.** -/
theorem depths_parents_iff {cs : List Nat} (hc : AreApart cs) (hm : ∀ c ∈ cs, 2 ≤ c) :
    parentsAfter [] (depths {} cs) = parentsAfter [] cs ↔ KeepsInLine [] cs :=
  (depths_parents cs hm).1 inStep_nil hc

end Comment.Nesting

end DoxygenMarkdown

import DoxygenMarkdown.Element
import DoxygenMarkdown.Proofs.Fences.Run

/-!
# Outlines with fences in pairs

The text of a node of an outline is put together piece by piece, and each piece keeps its fences in
pairs: text goes on with the last line of a node or stands below it, and a block of code stands
below it and is closed in the same node.

* `Outline.All` says something of the texts of all nodes, and `All.modifyEdge_of_imp` compares two
  ways to change the same node.
* `FencedText` holds of a text whose lines are fenced. The one place where two lines become one is
  `Outline.continueWith`: it goes on with text, or else, below a block, on a line of its own
  (`FencedText.continueWith`).
-/

namespace DoxygenMarkdown

/-- Something holds of the texts of an outline and of all outlines below it. -/
inductive Outline.All (P : Text → Prop) : Outline → Prop
  | intro {o : Outline} (top : P o.top) (sub : ∀ p ∈ o.sub, All P p) : All P o

/-- Something holds of all texts of an element. -/
def Element.All (P : Text → Prop) (e : Element) : Prop := ∀ o ∈ e.content?, o.All P

namespace Outline

variable {P : Text → Prop} {o : Outline} {t : Text}

theorem All.top (h : o.All P) : P o.top := by
  cases h with
  | intro top _ => exact top

theorem All.sub (h : o.All P) : ∀ p ∈ o.sub, p.All P := by
  cases h with
  | intro _ sub => exact sub

theorem All.imp {Q : Text → Prop} (hPQ : ∀ t, P t → Q t) (h : o.All P) : o.All Q := by
  induction h with
  | intro top _ ih => exact ⟨hPQ _ top, ih⟩

theorem all_leaf (h : P t) : (leaf t).All P := ⟨h, fun _ hp => absurd hp List.not_mem_nil⟩

theorem sub_startLine (t : Text) (o : Outline) : (o.startLine t).sub = o.sub := by
  unfold startLine
  split <;> rfl

theorem sub_addLine (t : Text) (o : Outline) : (o.addLine t).sub = o.sub := rfl

theorem sub_continueWith (t : Text) (o : Outline) : (o.continueWith t).sub = o.sub := by
  unfold continueWith
  split
  · rfl
  split <;> rfl

theorem All.addItem (h : o.All P) (ht : P t) : (o.addItem t).All P := by
  refine ⟨h.top, fun p hp => ?_⟩
  rcases List.mem_append.1 hp with hp | hp
  · exact h.sub p hp
  · obtain rfl : p = leaf t := List.mem_singleton.1 hp
    exact all_leaf ht

/-- An edge that has ended is changed at its end. -/
theorem modifyEdge_of_getLast?_eq_none (f : Outline → Outline) (depth : Nat)
    (h : o.sub.getLast? = none) : modifyEdge f depth o = f o := by
  cases depth with
  | zero => rfl
  | succ depth => rw [modifyEdge, h]

/-- One level deeper, the last item is changed and the others stay. -/
theorem modifyEdge_succ {last : Outline} (f : Outline → Outline) (depth : Nat)
    (h : o.sub.getLast? = some last) :
    modifyEdge f (depth + 1) o = { o with sub := o.sub.dropLast ++ [modifyEdge f depth last] } := by
  rw [modifyEdge, h]

theorem modifyEdge_id (depth : Nat) (o : Outline) : modifyEdge id depth o = o := by
  induction depth generalizing o with
  | zero => rfl
  | succ depth ih =>
    rcases h : o.sub.getLast? with _ | last
    · exact modifyEdge_of_getLast?_eq_none id _ h
    · obtain ⟨ps, hps⟩ := List.getLast?_eq_some_iff.1 h
      rw [modifyEdge_succ id depth h, ih, hps, List.dropLast_concat, ← hps]
      cases o
      rfl

/-- A node that is changed twice is changed by both changes at once, if the first one leaves the
items below it. -/
theorem modifyEdge_modifyEdge {f : Outline → Outline} (hf : ∀ o, (f o).sub = o.sub)
    (g : Outline → Outline) (depth : Nat) (o : Outline) :
    modifyEdge g depth (modifyEdge f depth o) = modifyEdge (g ∘ f) depth o := by
  induction depth generalizing o with
  | zero => rfl
  | succ depth ih =>
    rcases h : o.sub.getLast? with _ | last
    · rw [modifyEdge_of_getLast?_eq_none f _ h, modifyEdge_of_getLast?_eq_none (g ∘ f) _ h]
      exact modifyEdge_of_getLast?_eq_none g _ (by rw [hf, h])
    · rw [modifyEdge_succ f depth h, modifyEdge_succ (g ∘ f) depth h,
        modifyEdge_succ g depth List.getLast?_concat, List.dropLast_concat, ih]

/-- What holds after one change of a node holds after another, if it does for the node by
itself. -/
theorem All.modifyEdge_of_imp {f g : Outline → Outline} (h : ∀ o, (f o).All P → (g o).All P)
    {depth : Nat} (ho : (modifyEdge f depth o).All P) : (modifyEdge g depth o).All P := by
  induction depth generalizing o with
  | zero => exact h o ho
  | succ depth ih =>
    rcases hl : o.sub.getLast? with _ | last
    · rw [modifyEdge_of_getLast?_eq_none f _ hl] at ho
      rw [modifyEdge_of_getLast?_eq_none g _ hl]
      exact h o ho
    · rw [modifyEdge_succ f depth hl] at ho
      rw [modifyEdge_succ g depth hl]
      refine ⟨ho.top, fun p hp => ?_⟩
      rcases List.mem_append.1 hp with hp | hp
      · exact ho.sub p (List.mem_append_left _ hp)
      · obtain rfl : p = modifyEdge g depth last := List.mem_singleton.1 hp
        exact ih (ho.sub _ List.mem_concat_self)

end Outline

/-! ## Texts -/

/-- The kinds of lines that the reader of a comment tells apart. It closes blocks by a fence that
stands alone, and joins text by a space. -/
structure LineKinds.OfReader (k : LineKinds) : Prop where
  closing_iff {l : Text} : k.closing l ↔ l = Markdown.fence
  not_text_fence : ¬ k.text Markdown.fence
  text_nil : k.text []
  text_dash : k.text ['-']
  text_join {x y : Text} (hx : k.text x) (hy : k.text y) : k.text (x ++ ' ' :: y)

/-- The lines of a text are text and blocks of code. -/
def FencedText (k : LineKinds) (t : Text) : Prop := Fenced k t.lines

/-- All lines of a text are text. -/
def IsProse (k : LineKinds) (t : Text) : Prop := ∀ l ∈ t.lines, k.text l

/-- The first line of a text opens a block, and all others are code. -/
def OpensBlock (k : LineKinds) (t : Text) : Prop :=
  ∃ o code, t.lines = o :: code ∧ k.opening o ∧ ∀ l ∈ code, k.code l

instance (k : LineKinds) [DecidablePred k.text] (t : Text) : Decidable (IsProse k t) :=
  inferInstanceAs (Decidable (∀ l ∈ t.lines, k.text l))

instance (k : LineKinds) [DecidablePred k.opening] [DecidablePred k.code] (t : Text) :
    Decidable (OpensBlock k t) :=
  match h : t.lines with
  | [] => isFalse fun ⟨o, code, hlines, _⟩ => by rw [h] at hlines; cases hlines
  | o :: code =>
    decidable_of_iff (k.opening o ∧ ∀ l ∈ code, k.code l)
      ⟨fun ⟨ho, hcode⟩ => ⟨o, code, h, ho, hcode⟩, fun ⟨o', code', hlines, ho, hcode⟩ => by
        obtain ⟨rfl, rfl⟩ := List.cons.inj (h.symm.trans hlines); exact ⟨ho, hcode⟩⟩

variable {k : LineKinds} {t u : Text} {o : Outline}

theorem IsProse.fencedText (h : IsProse k t) : FencedText k t := .of_forall_text h

theorem FencedText.nil (hk : k.OfReader) : FencedText k [] :=
  .of_forall_text fun _ hl => List.mem_singleton.1 hl ▸ hk.text_nil

theorem IsProse.dash (hk : k.OfReader) (h : IsProse k t) : IsProse k ('-' :: ' ' :: t) := by
  obtain ⟨l, ls, hl⟩ := Text.lines_eq_cons t
  have hlines : Text.lines ('-' :: ' ' :: t) = ('-' :: ' ' :: l) :: ls :=
    Text.lines_cons (by decide) (Text.lines_cons (by decide) hl)
  intro m hm
  rw [hlines] at hm
  rcases List.mem_cons.1 hm with rfl | hm
  · exact hk.text_join hk.text_dash (h l (hl ▸ List.mem_cons_self))
  · exact h m (hl ▸ List.mem_cons_of_mem _ hm)

/-- A text that opens a block leaves it open. -/
theorem OpensBlock.unclosed (h : OpensBlock k t) : Unclosed k t.lines := by
  obtain ⟨o, code, hlines, ho, hcode⟩ := h
  rw [hlines]
  exact .cons (.opening ho) (.of_forall_code hcode)

/-- Two texts with their blocks closed keep them closed on either side of a line feed. -/
theorem FencedText.append_break (ht : FencedText k t) (hu : FencedText k u) :
    FencedText k (t ++ '\n' :: u) := by
  rw [FencedText, Text.lines_append_break]
  exact ht.append hu

/-- A text whose last line is the end of a block of code ends with it. -/
theorem endsWith_of_lines {ls : List Text} (hne : ls ≠ []) (h : t.lines = ls ++ [Markdown.fence]) :
    t.endsWith "\n```".toList = true := by
  have ht : t = Text.unlines ls ++ "\n```".toList := by
    rw [← Text.unlines_lines t, h, Text.unlines_append hne (List.cons_ne_nil _ _),
      Text.unlines_singleton]
    rfl
  rw [Text.endsWith, List.isSuffixOf_iff_suffix, ht]
  exact List.suffix_append _ _

/-- Going on with a text leaves its fences in pairs. -/
theorem FencedText.continueWith (hk : k.OfReader) (ho : FencedText k o.top) (ht : IsProse k t) :
    FencedText k (o.continueWith t).top := by
  unfold Outline.continueWith
  split
  · exact ht.fencedText
  split
  · exact ho.append_break ht.fencedText
  · next hend =>
    obtain ⟨ls, l, hls⟩ := Text.lines_eq_concat o.top
    obtain ⟨m, ms, hm⟩ := Text.lines_eq_cons t
    have hlines : Text.lines (o.top ++ ' ' :: t) = ls ++ (l ++ ' ' :: m) :: ms :=
      Text.lines_append hls (Text.lines_cons (by decide) hm)
    rw [FencedText, hls] at ho
    obtain ⟨b, hrun, hstep⟩ := ho.concat_inv
    rw [FencedText, hlines]
    cases hstep with
    | text hl =>
      have hms : Fenced k ms := .of_forall_text fun n hn => ht n (hm ▸ List.mem_cons_of_mem _ hn)
      exact hrun.append (.cons (.text (hk.text_join hl (ht m (hm ▸ List.mem_cons_self)))) hms)
    | closing hl =>
      -- a block that ends here is not gone on with
      have hne : ls ≠ [] := by
        rintro rfl
        cases hrun
      rw [hk.closing_iff.1 hl] at hls
      exact absurd (endsWith_of_lines hne hls) hend

/-- A block of code below a text, as far as it was read. -/
theorem Unclosed.startLine (ho : FencedText k o.top) (ht : OpensBlock k t) :
    Unclosed k (o.startLine t).top.lines := by
  unfold Outline.startLine
  split
  · exact ht.unclosed
  · rw [Outline.addLine, Text.lines_append_break]
    exact LineKinds.Run.append ho ht.unclosed

/-- The fence that closes a block of code. -/
theorem Unclosed.addLine_fence (hk : k.OfReader) (h : Unclosed k o.top.lines) :
    FencedText k (o.addLine Markdown.fence).top := by
  have hfence : Text.lines Markdown.fence = [Markdown.fence] := by decide
  rw [FencedText, Outline.addLine, Text.lines_append_break, hfence]
  exact h.concat (.closing (hk.closing_iff.2 rfl))

/-- Where a fence closes a block of code, the block is open above it. -/
theorem FencedText.of_addLine_fence (hk : k.OfReader)
    (h : FencedText k (o.addLine Markdown.fence).top) : Unclosed k o.top.lines := by
  have hfence : Text.lines Markdown.fence = [Markdown.fence] := by decide
  rw [FencedText, Outline.addLine, Text.lines_append_break, hfence] at h
  obtain ⟨b, hrun, hstep⟩ := h.concat_inv
  cases hstep with
  | text hl => exact absurd hl hk.not_text_fence
  | closing _ => exact hrun

/-- Lines of code below a block that is open leave it open. -/
theorem Unclosed.addLine (ho : Unclosed k o.top.lines) (ht : ∀ l ∈ t.lines, k.code l) :
    Unclosed k (o.addLine t).top.lines := by
  rw [Outline.addLine, Text.lines_append_break]
  exact LineKinds.Run.append ho (.of_forall_code ht)

end DoxygenMarkdown

import DoxygenMarkdown.Proofs.Fences.OpenCode
import DoxygenMarkdown.Proofs.Outline

/-!
# Readers that came apart

Two readers of comments whose elements differ may still come together again: one of them is some
lines behind, say, or its last text is not complete yet. This module is about differences that stay.
Elements only grow, so whatever is kept of one element tells it from all elements of another reader
that keep something else (`Apart`). Two such readers never read the same again, whatever the lines
below say to each of them (`Apart.ne`).

Kept are the tag of an element (`kept_frame`), and of each of its texts what the text begins with
(`kept_showsAt`). So readers come apart where they take in different lines of the same code
(`State.apart_modifyLast`).
-/

namespace DoxygenMarkdown

namespace Outline

/-- A text of an outline begins with some other text. A path leads there, by the numbers of
items. -/
inductive ShowsAt (t : Text) : (path : List Nat) → Outline → Prop
  | top {o : Outline} (h : t <+: o.top) : ShowsAt t [] o
  | item {o p : Outline} {i : Nat} {path : List Nat} (hp : o.sub[i]? = some p)
    (h : ShowsAt t path p) : ShowsAt t (i :: path) o

variable {t u : Text} {path : List Nat} {o : Outline}

/-- At the end of a path there is one text. -/
theorem ShowsAt.eq (h : o.ShowsAt t path) (hu : o.ShowsAt u path) (hlength : t.length = u.length) :
    t = u := by
  induction h with
  | top h =>
    cases hu with
    | top hu =>
      exact (List.prefix_of_prefix_length_le h hu (Nat.le_of_eq hlength)).eq_of_length hlength
  | item hp _ ih =>
    cases hu with
    | item hq hu =>
      obtain rfl := Option.some.inj (hp.symm.trans hq)
      exact ih hu

/-- A text only grows at its end, once there is one. -/
theorem Growth.prefix_top {f : Outline → Outline} (hf : Growth f) (hne : o.top ≠ []) :
    o.top <+: (f o).top := by
  have hempty : o.top.isEmpty = false := List.isEmpty_eq_false_iff.2 hne
  cases hf with
  | addItem t => exact List.prefix_rfl
  | addLine t => exact List.prefix_append _ _
  | startLine t =>
    rw [Outline.startLine, hempty]
    exact List.prefix_append _ _
  | continueWith t =>
    rw [Outline.continueWith, hempty, if_neg Bool.false_ne_true]
    split
    · exact List.prefix_append _ _
    · exact List.prefix_append _ _

theorem Growth.getElem?_sub {f : Outline → Outline} (hf : Growth f) {i : Nat} {p : Outline}
    (hp : o.sub[i]? = some p) : (f o).sub[i]? = some p := by
  cases hf with
  | addItem t =>
    rw [Outline.addItem, List.getElem?_append_left (List.getElem?_eq_some_iff.1 hp).1, hp]
  | continueWith t => rwa [sub_continueWith]
  | addLine t => exact hp
  | startLine t => rwa [sub_startLine]

theorem ShowsAt.of_growth (ht : t ≠ []) {f : Outline → Outline} (hf : Growth f)
    (h : o.ShowsAt t path) : (f o).ShowsAt t path := by
  cases h with
  | top h =>
    have hne : o.top ≠ [] := fun hnil => ht (List.prefix_nil.1 (hnil ▸ h))
    exact .top (h.trans (hf.prefix_top hne))
  | item hp h => exact .item (hf.getElem?_sub hp) h

theorem ShowsAt.modifyEdge (ht : t ≠ []) {f : Outline → Outline} (hf : Growth f) (depth : Nat)
    (h : o.ShowsAt t path) : (modifyEdge f depth o).ShowsAt t path := by
  induction depth generalizing o path with
  | zero => exact h.of_growth ht hf
  | succ depth ih =>
    rcases hl : o.sub.getLast? with _ | last
    · rw [modifyEdge_of_getLast?_eq_none f _ hl]
      exact h.of_growth ht hf
    rw [modifyEdge_succ f depth hl]
    cases h with
    | top h => exact .top h
    | @item _ p i path hp h =>
      obtain ⟨ps, hps⟩ := List.getLast?_eq_some_iff.1 hl
      rw [hps] at hp
      rw [hps, List.dropLast_concat]
      rcases (getElem?_concat_eq_some_iff _ _).1 hp with hp | ⟨rfl, rfl⟩
      · exact .item (List.getElem?_append_left (List.getElem?_eq_some_iff.1 hp).1 ▸ hp) h
      · exact .item List.getElem?_concat_length (ih h)

/-- A node that lies within others is found on the path of their items. -/
theorem showsAt_within {p : Outline} (h : t <+: p.top) (nodes : List Outline) :
    (within nodes p).ShowsAt t (nodes.map (·.sub.length)) := by
  induction nodes with
  | nil => exact .top h
  | cons node nodes ih => exact .item List.getElem?_concat_length ih

end Outline

/-- A text of an element begins with some other text. -/
def Element.ShowsAt (t : Text) (path : List Nat) (e : Element) : Prop :=
  ∃ o ∈ e.content?, o.ShowsAt t path

namespace Comment

/-! ## What is kept -/

theorem kept_frame (frame : Element) : Kept fun e => e.mapContent (fun _ => .leaf []) = frame := by
  rintro e rfl depth f -
  cases e <;> rfl

theorem kept_showsAt {t : Text} (ht : t ≠ []) (path : List Nat) :
    Kept fun e => e.ShowsAt t path := by
  rintro e ⟨o, ho, hshows⟩ depth f hf
  refine ⟨_, ?_, hshows.modifyEdge ht hf depth⟩
  cases e <;> cases ho <;> rfl

/-- Readers whose elements, the last one first, are told apart by what is kept of one of them. -/
inductive Apart (es fs : List Element) : Prop
  | intro {P Q : Element → Prop} {e f : Element} {older : List Element} (hP : Kept P) (hQ : Kept Q)
    (hPQ : ∀ e, P e → ¬ Q e) (he : P e) (hf : Q f) (hes : Grows (e :: older) es)
    (hfs : Grows (f :: older) fs) : Apart es fs

namespace Apart

variable {es es' fs fs' : List Element}

theorem symm (h : Apart es fs) : Apart fs es := by
  obtain ⟨hP, hQ, hPQ, he, hf, hes, hfs⟩ := h
  exact .intro hQ hP (fun e hQ hP => hPQ e hP hQ) hf he hfs hes

theorem grows (h : Apart es fs) (hes : Grows es es') (hfs : Grows fs fs') : Apart es' fs' := by
  obtain ⟨hP, hQ, hPQ, he, hf, hes', hfs'⟩ := h
  exact .intro hP hQ hPQ he hf (hes'.trans hes) (hfs'.trans hfs)

/-- **Readers that came apart have not read the same.** -/
theorem ne (h : Apart es fs) : es ≠ fs := by
  rintro rfl
  obtain ⟨hP, hQ, hPQ, he, hf, hes, hfs⟩ := h
  obtain ⟨newer, e', rfl, he'⟩ := hes.of_kept hP he
  obtain ⟨newer', f', heq, hf'⟩ := hfs.of_kept hQ hf
  obtain ⟨-, hcons⟩ := List.append_inj' heq rfl
  obtain ⟨rfl, -⟩ := List.cons.inj hcons
  exact hPQ e' he' hf'

end Apart

/-- What is kept of a text tells two elements apart. -/
theorem apart_of_showsAt {t u : Text} {path : List Nat} (ht : t ≠ [])
    (hlength : t.length = u.length) (hne : t ≠ u) {e f : Element} {older es fs : List Element}
    (he : e.ShowsAt t path) (hf : f.ShowsAt u path) (hes : Grows (e :: older) es)
    (hfs : Grows (f :: older) fs) : Apart es fs := by
  have hu : u ≠ [] := by
    rintro rfl
    exact ht (List.length_eq_zero_iff.1 hlength)
  refine .intro (kept_showsAt ht path) (kept_showsAt hu path) ?_ he hf hes hfs
  rintro e ⟨o, ho, hshows⟩ ⟨p, hp, hshows'⟩
  obtain rfl := Option.some.inj (ho.symm.trans hp)
  exact hne (hshows.eq hshows' hlength)

namespace State

variable {s s' : State}

/-- Readers come apart where they put different lines into one text. -/
theorem apart_addLine (hs : s.HasText) (depth : Nat) {t u x y : Text} (hx : x <+: t) (hy : y <+: u)
    (hlength : x.length = y.length) (hne : x ≠ y) :
    Apart (s.modifyLast depth (Outline.addLine t)).elements
      (s.modifyLast depth (Outline.addLine u)).elements := by
  obtain ⟨e, older, o, he, ho⟩ := hs
  obtain ⟨nodes, p, rfl, hp⟩ := Outline.exists_liesAt depth o
  have hshows : ∀ {t x : Text}, x <+: t →
      (e.mapContent (Outline.modifyEdge (Outline.addLine t) depth)).ShowsAt (p.top ++ '\n' :: x)
        (nodes.map (·.sub.length)) := by
    rintro t x ⟨rest, rfl⟩
    refine ⟨Outline.modifyEdge (Outline.addLine (x ++ rest)) depth (Outline.within nodes p), ?_, ?_⟩
    · cases e <;> cases ho <;> rfl
    · rw [hp]
      refine Outline.showsAt_within ⟨rest, ?_⟩ nodes
      rw [Outline.addLine, List.append_assoc]
      rfl
  have helements : ∀ t, (s.modifyLast depth (Outline.addLine t)).elements =
      e.mapContent (Outline.modifyEdge (Outline.addLine t) depth) :: older := fun t => by
    rw [modifyLast, he]
  rw [helements, helements]
  refine apart_of_showsAt (List.append_ne_nil_of_right_ne_nil _ (List.cons_ne_nil _ _)) ?_ ?_
    (hshows hx) (hshows hy) .refl .refl
  · rw [List.length_append, List.length_append, List.length_cons, List.length_cons, hlength]
  · exact fun heq => hne (List.cons.inj (List.append_cancel_left heq)).2

/-- Readers that came apart end with different elements. -/
theorem finish_ne_of_apart (h : Apart s.elements s'.elements) : s.finish ≠ s'.finish := by
  rw [finish_eq, finish_eq]
  intro heq
  exact (h.grows s.grows_closed s'.grows_closed).ne
    (List.reverse_inj.1 (List.append_cancel_right heq))

end State

end Comment

end DoxygenMarkdown

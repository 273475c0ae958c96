import DoxygenMarkdown.Proofs.Fences.Block
import DoxygenMarkdown.Proofs.Fences.Count
import Mathlib.Data.List.Forall2

/-!
# Blocks of code behind marks and labels

Writing an outline puts marks before the lines of its texts, and now and then a label or a heading
before the first one. Two things are said of a text that is written for some lines (`Writes`):

* its fences are in pairs, each at the beginning of a line but for marks (`IsPaired`);
* the lines that open and close its blocks are those of the lines that it is written for, in order
  and with nothing but marks before them (`Shows`).

The second one needs no more than to look at each line by itself: a line that opens or closes a
block holds one fence, so it is enough that marks are put before lines, and anything else only
before and behind lines that hold an even number of fences (`Becomes`). A mark may be put before
any line (`Writes.mark`), a label only before text (`Writes.label`).
-/

namespace DoxygenMarkdown

open Markdown

/-- Whether a line holds an even number of fences. -/
def HoldsPairs (l : Text) : Prop := fenceCount l % 2 = 0

instance : DecidablePred HoldsPairs := fun l =>
  inferInstanceAs (Decidable (fenceCount l % 2 = 0))

/-- By their number, the fences of a text are in pairs, each opened and closed at the beginning of a
line but for the marks of lists and quotes. -/
abbrev IsPaired (t : Text) : Prop := FencedText writtenPairedLines t

/-! ## Lines behind marks -/

/-- A line is written behind the marks of lists and quotes, and nothing else. -/
def Behind (l m : Text) : Prop := ∃ p, IsContainerPrefix p ∧ m = p ++ l

/-- The lines that open and close the blocks among some lines: those with an odd number of
fences. -/
def delimiters (ls : List Text) : List Text := ls.filter fun l => fenceCount l % 2 = 1

/-- The lines that open and close blocks are written in order, each behind marks, and no other line
looks like one of them. -/
def Shows (ls ms : List Text) : Prop := List.Forall₂ Behind (delimiters ls) (delimiters ms)

variable {l m : Text} {ls ms ls' ms' : List Text}

theorem behind_self (l : Text) : Behind l l := ⟨[], .nil, rfl⟩

/-- Marks in front of a line bring no fence with them. -/
theorem Behind.fenceCount_eq (h : Behind l m) : fenceCount m = fenceCount l := by
  obtain ⟨p, hp, rfl⟩ := h
  exact hp.fenceCount_append l

theorem Behind.mark {p : Text} (hp : IsContainerPrefix p) (h : Behind l m) : Behind l (p ++ m) := by
  obtain ⟨q, hq, rfl⟩ := h
  exact ⟨p ++ q, hp.append hq, (List.append_assoc p q l).symm⟩

theorem behind_indentLine (n : Nat) (l : Text) : Behind l (indentLine n l) :=
  ⟨_, .replicate n, rfl⟩

theorem behind_bulletLine (n : Nat) (l : Text) : Behind l (bulletLine n l) := by
  have h := (behind_self l).mark (.dash .nil)
  exact h.mark (.replicate n)

theorem delimiters_append (ls ms : List Text) :
    delimiters (ls ++ ms) = delimiters ls ++ delimiters ms := List.filter_append ls ms

/-- A line with its fences in pairs opens and closes nothing. -/
theorem delimiters_cons_of_pairs (h : HoldsPairs l) (ls : List Text) :
    delimiters (l :: ls) = delimiters ls :=
  List.filter_cons_of_neg (by simp [show fenceCount l % 2 = 0 from h])

theorem delimiters_cons_of_odd (h : fenceCount l % 2 = 1) (ls : List Text) :
    delimiters (l :: ls) = l :: delimiters ls := List.filter_cons_of_pos (by simpa using h)

theorem holdsPairs_or_odd (l : Text) : HoldsPairs l ∨ fenceCount l % 2 = 1 := by
  rw [HoldsPairs]
  omega

theorem Shows.append (h : Shows ls ms) (h' : Shows ls' ms') : Shows (ls ++ ls') (ms ++ ms') := by
  rw [Shows, delimiters_append, delimiters_append]
  exact List.rel_append h h'

theorem Behind.trans {n : Text} (h : Behind l m) (h' : Behind m n) : Behind l n := by
  obtain ⟨p, hp, rfl⟩ := h'
  exact h.mark hp

/-- What is written may be written again, with more marks. -/
theorem Shows.trans {ns : List Text} (h : Shows ls ms) (h' : Shows ms ns) : Shows ls ns := by
  have htrans : ∀ {xs ys zs : List Text}, List.Forall₂ Behind xs ys → List.Forall₂ Behind ys zs →
      List.Forall₂ Behind xs zs := by
    intro xs ys zs hxy
    induction hxy generalizing zs with
    | nil => exact id
    | cons hx _ ih =>
      rintro (_ | ⟨hy, hyz⟩)
      exact .cons (hx.trans hy) (ih hyz)
  exact htrans h h'

theorem shows_self (ls : List Text) : Shows ls ls :=
  List.forall₂_same.2 fun l _ => behind_self l

/-- A line is written behind marks, or it holds an even number of fences, and so does what is
written of it. -/
def Becomes (l m : Text) : Prop := (HoldsPairs l ∧ HoldsPairs m) ∨ Behind l m

/-- Lines that are written one by one. -/
theorem shows_of_forall₂ (h : List.Forall₂ Becomes ls ms) : Shows ls ms := by
  induction h with
  | nil => exact .nil
  | @cons l m ls ms hlm _ ih =>
    rcases hlm with ⟨hl, hm⟩ | hlm
    · rwa [Shows, delimiters_cons_of_pairs hl, delimiters_cons_of_pairs hm]
    · have hcount := hlm.fenceCount_eq
      rcases holdsPairs_or_odd l with hl | hl
      · have hm : HoldsPairs m := by rwa [HoldsPairs, hcount]
        rwa [Shows, delimiters_cons_of_pairs hl, delimiters_cons_of_pairs hm]
      · have hm : fenceCount m % 2 = 1 := by rwa [hcount]
        rw [Shows, delimiters_cons_of_odd hl, delimiters_cons_of_odd hm]
        exact .cons hlm ih

/-- Lines that become others one by one are shown by them. -/
theorem shows_map {f : Text → Text} (h : ∀ l ∈ ls, Becomes l (f l)) : Shows ls (ls.map f) :=
  shows_of_forall₂ (List.forall₂_map_right_iff.2 (List.forall₂_same.2 h))

theorem Becomes.shows_cons (h : Becomes l m) (ls : List Text) : Shows (l :: ls) (m :: ls) :=
  shows_of_forall₂ (.cons h (List.forall₂_same.2 fun k _ => .inr (behind_self k)))

/-- The lines that open and close a block are found behind marks, and nothing between them opens or
closes another one. -/
def ShowsBlock (block ls : List Text) : Prop :=
  ∃ above first last below, delimiters ls = above ++ first :: last :: below ∧
    (∃ l ∈ block.head?, Behind l first) ∧ Behind fence last

/-- Of a block of code two lines count: the one that opens it and its end. -/
theorem delimiters_block {block : List Text} (hb : IsCodeBlock pairedLines block) :
    ∃ l ∈ block.head?, delimiters block = [l, fence] := by
  obtain ⟨l, code, rfl, ⟨r, rfl, hr⟩, hcode⟩ := hb
  have hl : fenceCount (fence ++ r) % 2 = 1 := by rw [fenceCount_fence_append, hr]
  have hnone : delimiters code = [] := by
    refine List.filter_eq_nil_iff.2 fun m hm => ?_
    have hm : fenceCount m = 0 := hcode m hm
    simp [hm]
  refine ⟨fence ++ r, rfl, ?_⟩
  rw [delimiters_cons_of_odd hl, delimiters_append, hnone]
  rfl

/-- Two neighbours are related to two neighbours. -/
theorem forall₂_append_cons_cons {α β : Type} {R : α → β → Prop} {xs ys : List α} {zs : List β}
    {x y : α} (h : List.Forall₂ R (xs ++ x :: y :: ys) zs) :
    ∃ xs' x' y' ys', zs = xs' ++ x' :: y' :: ys' ∧ R x x' ∧ R y y' := by
  induction xs generalizing zs with
  | nil =>
    obtain _ | ⟨hx, _ | ⟨hy, _⟩⟩ := h
    exact ⟨[], _, _, _, rfl, hx, hy⟩
  | cons w ws ih =>
    obtain _ | ⟨-, hws⟩ := h
    obtain ⟨xs', x', y', ys', rfl, hx, hy⟩ := ih hws
    exact ⟨_ :: xs', x', y', ys', rfl, hx, hy⟩

/-- A block of some lines is found wherever they are written. -/
theorem Shows.block {block above below : List Text} (h : Shows (above ++ block ++ below) ms)
    (hb : IsCodeBlock pairedLines block) : ShowsBlock block ms := by
  obtain ⟨l, hl, hblock⟩ := delimiters_block hb
  rw [Shows, delimiters_append, delimiters_append, hblock, List.append_assoc] at h
  obtain ⟨xs, first, last, ys, hms, hfirst, hlast⟩ := forall₂_append_cons_cons h
  exact ⟨xs, first, last, ys, hms, ⟨l, hl, hfirst⟩, hlast⟩

/-! ## Texts with their fences in pairs -/

variable {k : LineKinds} {t u : Text}

theorem isPaired_of_notMem (hb : '\n' ∉ t) (h : HoldsPairs t) : IsPaired t := by
  rw [IsPaired, FencedText, Text.lines_of_notMem hb]
  exact .singleton (.text h)

/-- A text with its blocks closed has its fences in pairs. -/
theorem FencedText.isPaired (h : FencedText pairedLines t) : IsPaired t :=
  pairedLines_writtenAs.fenced_lines h

/-- The number of fences in such a text is even. -/
theorem IsPaired.fenceCount_even (h : IsPaired t) : fenceCount t % 2 = 0 := by
  have hsum := sum_fenceCount h
  rwa [fenceCount_lines, if_pos rfl] at hsum

/-- A text whose first line gets something before it. -/
theorem FencedText.prepend {p : Text} (hb : '\n' ∉ p)
    (hstep : ∀ l ∈ t.lines.head?, ∀ b, k.Step false l b → k.Step false (p ++ l) b)
    (h : FencedText k t) : FencedText k (p ++ t) := by
  obtain ⟨l, ls, hl⟩ := Text.lines_eq_cons t
  rw [FencedText, hl] at h
  obtain ⟨b, hfirst, hrun⟩ := h.cons_inv
  rw [FencedText, Text.lines_append_of_notMem hb hl]
  exact .cons (hstep l (by rw [hl]; rfl) b hfirst) hrun

/-- A label with its fences in pairs, which ends with a space. -/
structure IsLabel (label : Text) : Prop where
  break_notMem : '\n' ∉ label
  holdsPairs : HoldsPairs label
  endsWith : ∃ p, label = p ++ [' ']

/-- A label in front of a line leaves its fences in pairs. -/
theorem IsLabel.holdsPairs_append {label l : Text} (h : IsLabel label) (hl : HoldsPairs l) :
    HoldsPairs (label ++ l) := by
  have hlabel := h.holdsPairs
  obtain ⟨p, rfl⟩ := h.endsWith
  rw [HoldsPairs, fenceCount_append_cons (by decide), fenceCount_nil] at hlabel
  rw [HoldsPairs] at hl ⊢
  rw [List.append_assoc, List.singleton_append, fenceCount_append_cons (by decide)]
  omega

/-- Whether kinds of lines are told apart by the number of their fences, so that a label does not
matter. -/
structure LineKinds.CountsFences (k : LineKinds) : Prop where
  text {l : Text} (h : HoldsPairs l) : k.text l
  opening {l : Text} (h : k.opening l) : ¬ HoldsPairs l

theorem writtenPairedLines_countsFences : writtenPairedLines.CountsFences where
  text := id
  opening := by
    rintro l ⟨p, r, hp, rfl, hr⟩
    rw [HoldsPairs, hp.fenceCount_append, fenceCount_fence_append, hr]
    decide

theorem pairedLines_countsFences : pairedLines.CountsFences where
  text := id
  opening := by
    rintro l ⟨r, rfl, hr⟩
    exact writtenPairedLines_countsFences.opening ⟨[], r, .nil, rfl, hr⟩

/-- A label stands before text. -/
theorem FencedText.label (hk : k.CountsFences) {label : Text} (hlabel : IsLabel label)
    (ht : BeginsWith HoldsPairs t) (h : FencedText k t) : FencedText k (label ++ t) := by
  refine h.prepend hlabel.break_notMem fun l hl b hstep => ?_
  cases hstep with
  | text _ => exact .text (hk.text (hlabel.holdsPairs_append (ht l hl)))
  | opening ho => exact absurd (ht l hl) (hk.opening ho)

/-! ## Texts that are written for some lines -/

/-- A text has its fences in pairs, and the lines that open and close its blocks are those that are
found among some lines. -/
structure Writes (ls : List Text) (t : Text) : Prop where
  isPaired : IsPaired t
  shows : Shows ls t.lines

theorem writes_of_notMem (hb : '\n' ∉ t) (h : HoldsPairs t) : Writes [] t where
  isPaired := isPaired_of_notMem hb h
  shows := by
    rw [Text.lines_of_notMem hb, Shows, delimiters_cons_of_pairs h]
    exact .nil

theorem FencedText.writes (h : FencedText pairedLines t) : Writes t.lines t :=
  ⟨h.isPaired, shows_self _⟩

namespace Writes

/-- What shows the lines of a text shows those that they show. -/
theorem of_shows (h : Writes ls t) (hls : Shows ls' ls) : Writes ls' t :=
  ⟨h.isPaired, hls.trans h.shows⟩

/-- Two texts with a line feed between them write the lines of both. -/
theorem append_break (ht : Writes ls t) (hu : Writes ms u) :
    Writes (ls ++ ms) (t ++ '\n' :: u) where
  isPaired := ht.isPaired.append_break hu.isPaired
  shows := by
    rw [Text.lines_append_break]
    exact ht.shows.append hu.shows

theorem append_breaks (ht : Writes ls t) (hu : Writes ms u) :
    Writes (ls ++ ms) (t ++ ("\n\n".toList ++ u)) :=
  ht.append_break ((writes_of_notMem List.not_mem_nil rfl).append_break hu)

/-- What is put in front of a text only changes its first line. -/
theorem shows_append {p : Text} (hb : '\n' ∉ p) (h : ∀ l ∈ t.lines.head?, Becomes l (p ++ l)) :
    Shows t.lines (p ++ t).lines := by
  obtain ⟨l, ls, hl⟩ := Text.lines_eq_cons t
  rw [Text.lines_append_of_notMem hb hl, hl]
  exact (h l (by rw [hl]; rfl)).shows_cons ls

/-- A mark may be put in front of any text. -/
theorem mark {p : Text} (hp : IsContainerPrefix p) (hb : '\n' ∉ p) (h : Writes ls t) :
    Writes ls (p ++ t) where
  isPaired := h.isPaired.prepend hb fun _ _ _ hl => hp.step hl
  shows := h.shows.trans (shows_append hb fun l _ => .inr ((behind_self l).mark hp))

/-- A label may be put in front of a text whose first line opens no block. -/
theorem label {label : Text} (hlabel : IsLabel label) (ht : BeginsWith HoldsPairs t)
    (h : Writes ls t) : Writes ls (label ++ t) where
  isPaired := h.isPaired.label writtenPairedLines_countsFences hlabel ht
  shows := h.shows.trans
    (shows_append hlabel.break_notMem fun l hl =>
      .inl ⟨ht l hl, hlabel.holdsPairs_append (ht l hl)⟩)

end Writes

/-! ## Outlines -/

mutual

/-- The lines of the texts of an outline. -/
def Outline.textLines : Outline → List Text
  | ⟨top, sub⟩ => top.lines ++ Outline.listTextLines sub

/-- The lines of the texts of some outlines. -/
def Outline.listTextLines : List Outline → List Text
  | [] => []
  | o :: os => Outline.textLines o ++ Outline.listTextLines os

end

namespace Outline

theorem textLines_eq (o : Outline) : o.textLines = o.top.lines ++ listTextLines o.sub := by
  cases o
  rw [textLines]

theorem listTextLines_append (os ps : List Outline) :
    listTextLines (os ++ ps) = listTextLines os ++ listTextLines ps := by
  induction os with
  | nil => rfl
  | cons o os ih => rw [List.cons_append, listTextLines, ih, listTextLines, List.append_assoc]

/-- Whatever is in the lines of an outline is in those of a list that it is in. -/
theorem exists_listTextLines {o : Outline} {os : List Outline} (ho : o ∈ os) :
    ∃ above below, listTextLines os = above ++ o.textLines ++ below := by
  obtain ⟨ps, qs, rfl⟩ := List.append_of_mem ho
  refine ⟨listTextLines ps, listTextLines qs, ?_⟩
  rw [listTextLines_append, listTextLines, List.append_assoc]

/-- A block that a node holds is found among the lines of the outline. -/
theorem Holds.exists_textLines {k : LineKinds} {block : List Text} {level : Nat} {o : Outline}
    (h : o.Holds k block level) : ∃ above below, o.textLines = above ++ block ++ below := by
  induction h with
  | @top o above below _ h =>
    refine ⟨above, below ++ listTextLines o.sub, ?_⟩
    rw [textLines_eq, h, List.append_assoc]
  | @item o p _ hp _ ih =>
    obtain ⟨above, below, hlines⟩ := ih
    obtain ⟨above', below', hsub⟩ := exists_listTextLines hp
    refine ⟨o.top.lines ++ above' ++ above, below ++ below', ?_⟩
    rw [textLines_eq, hsub, hlines]
    simp

mutual

/-- Each line of an item stands behind the marks of the lists that it is in. -/
theorem forall₂_itemLines (indent : Nat) :
    (o : Outline) → List.Forall₂ Behind o.textLines ((itemLines indent o).flatMap Text.lines)
  | ⟨top, sub⟩ => by
    obtain ⟨l, ls, hl⟩ := Text.lines_eq_cons top
    rw [flatMap_lines_itemLines indent hl, textLines, hl]
    -- the first line gets the bullet, and the others its width
    refine .cons (behind_bulletLine indent l) (List.rel_append ?_ (forall₂_listLines _ sub))
    exact List.forall₂_map_right_iff.2 (List.forall₂_same.2 fun l _ => behind_indentLine _ l)

/-- And so does each line of a list. -/
theorem forall₂_listLines (indent : Nat) :
    (os : List Outline) →
      List.Forall₂ Behind (listTextLines os) ((listLines indent os).flatMap Text.lines)
  | [] => by
    rw [listLines, listTextLines]
    exact .nil
  | o :: os => by
    rw [listLines, List.flatMap_append, listTextLines]
    exact List.rel_append (forall₂_itemLines indent o) (forall₂_listLines indent os)

end

/-- An outline is written with its fences in pairs. -/
theorem writes_render {o : Outline} (h : o.All (FencedText pairedLines)) :
    Writes o.textLines (o.render 0) := by
  have htop : Shows o.top.lines (if o.top.isEmpty then [] else o.top.lines) := by
    split
    · next hempty =>
      rw [List.isEmpty_iff.1 hempty]
      exact .nil
    · exact shows_self _
  have hsub : Shows (listTextLines o.sub) ((listLines 0 o.sub).flatMap Text.lines) :=
    shows_of_forall₂ ((forall₂_listLines 0 o.sub).imp fun _ _ => .inr)
  rw [textLines_eq]
  cases hempty : o.isEmpty with
  | true =>
    rcases o with ⟨_ | ⟨c, t⟩, _ | ⟨p, ps⟩⟩
    · exact (writes_of_notMem List.not_mem_nil rfl).of_shows .nil
    all_goals cases hempty
  | false =>
    constructor
    · rw [IsPaired, FencedText, lines_render hempty]
      refine LineKinds.Run.append ?_ (pairedLines_writtenAs.fenced_listLines h.sub ?_ 0)
      · split
        · exact .nil false
        · exact h.top.isPaired
      · exact fun p hp => (h.sub p hp).imp fun _ _ _ _ => trivial
    · rw [lines_render hempty]
      exact htop.append hsub

end Outline

end DoxygenMarkdown

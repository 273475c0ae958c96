import DoxygenMarkdown.Proofs.Fences.Block

/-!
# Outlines as lines

Writing an outline as a list indents the texts of its nodes as a whole, and puts a bullet before the
first line of each. Indentation does not matter for what a line is, but a bullet may: a fence behind
it is not at the beginning of its line any more. `WrittenAs` says what kinds of lines become, with a
condition on the lines that get a bullet, and under that condition fences that are in pairs in each
node are in pairs in what is written (`fenced_render`).
-/

namespace DoxygenMarkdown

/-- A line at some indentation. -/
def indentLine (n : Nat) (l : Text) : Text := List.replicate n ' ' ++ l

/-- The first line of an item at some indentation. -/
def bulletLine (n : Nat) (l : Text) : Text := indentLine n ('-' :: ' ' :: l)

/-- Lines of some kinds are of other kinds when they are indented, and so are those that satisfy
`B` when they get a bullet. -/
structure WrittenAs (k k' : LineKinds) (B : Text → Prop) : Prop where
  indent {a b : Bool} {l : Text} (n : Nat) (h : k.Step a l b) : k'.Step a (indentLine n l) b
  bullet {b : Bool} {l : Text} (n : Nat) (hl : B l) (h : k.Step false l b) :
    k'.Step false (bulletLine n l) b

/-- The first line of a text satisfies `B`. -/
def BeginsWith (B : Text → Prop) (t : Text) : Prop := ∀ l ∈ t.lines.head?, B l

namespace Outline

/-- All items of an outline begin with a line that satisfies `B`. -/
def ItemsBeginWith (B : Text → Prop) (o : Outline) : Prop :=
  ∀ p ∈ o.sub, p.All (BeginsWith B)

theorem itemLines_eq (indent : Nat) (o : Outline) :
    itemLines indent o =
      bulletLine indent (Text.hang (indent + 2) o.top) :: listLines (indent + 2) o.sub := by
  cases o
  rw [itemLines]
  rfl

theorem lines_bulletLine (indent : Nat) {t l : Text} {ls : List Text} (h : t.lines = l :: ls) :
    (bulletLine indent (Text.hang (indent + 2) t)).lines =
      bulletLine indent l :: ls.map (indentLine (indent + 2)) := by
  have hhang := Text.lines_hang (indent + 2) h
  exact Text.lines_append_of_notMem (Text.break_notMem_replicate indent)
    (Text.lines_cons (by decide) (Text.lines_cons (by decide) hhang))

/-- The lines of an item: those of its text, indented behind the bullet, and those of the items
below it. -/
theorem flatMap_lines_itemLines (indent : Nat) {o : Outline} {l : Text} {ls : List Text}
    (h : o.top.lines = l :: ls) :
    (itemLines indent o).flatMap Text.lines =
      bulletLine indent l :: (ls.map (indentLine (indent + 2)) ++
        (listLines (indent + 2) o.sub).flatMap Text.lines) := by
  rw [itemLines_eq, List.flatMap_cons, lines_bulletLine indent h, List.cons_append]

theorem listLines_eq (indent : Nat) (os : List Outline) :
    listLines indent os = os.flatMap (itemLines indent) := by
  induction os with
  | nil =>
    rw [listLines]
    rfl
  | cons o os ih => rw [listLines, ih, List.flatMap_cons]

theorem flatMap_lines_listLines (indent : Nat) (os : List Outline) :
    (listLines indent os).flatMap Text.lines =
      os.flatMap fun o => (itemLines indent o).flatMap Text.lines := by
  rw [listLines_eq, List.flatMap_assoc]

/-- The lines of an outline that is a paragraph, if it has any. -/
theorem lines_render {o : Outline} (h : o.isEmpty = false) (indent : Nat) :
    (o.render indent).lines =
      (if o.top.isEmpty then [] else o.top.lines) ++
        (listLines indent o.sub).flatMap Text.lines := by
  have hne : (if o.top.isEmpty then [] else [o.top]) ++ listLines indent o.sub ≠ [] := by
    rcases o with ⟨_ | ⟨c, t⟩, _ | ⟨p, ps⟩⟩
    · cases h
    · simp [listLines, itemLines_eq]
    · simp
    · simp
  rw [render, Text.lines_unlines_flatMap hne, List.flatMap_append]
  split <;> simp

end Outline

variable {k k' : LineKinds} {B : Text → Prop}

open Outline

/-- The lines that an item is written as, if its text begins as it should. -/
theorem WrittenAs.fenced_item (hw : WrittenAs k k' B) {o : Outline} (ho : FencedText k o.top)
    (hB : BeginsWith B o.top) {indent : Nat}
    (hsub : Fenced k' ((listLines (indent + 2) o.sub).flatMap Text.lines)) :
    Fenced k' ((itemLines indent o).flatMap Text.lines) := by
  obtain ⟨l, ls, hl⟩ := Text.lines_eq_cons o.top
  rw [FencedText, hl] at ho
  rw [BeginsWith, hl] at hB
  obtain ⟨b, hstep, hrun⟩ := ho.cons_inv
  rw [flatMap_lines_itemLines indent hl]
  have hls : k'.Run b (ls.map (indentLine (indent + 2))) false :=
    hrun.map fun _ _ _ h => hw.indent (indent + 2) h
  exact .cons (hw.bullet indent (hB l rfl) hstep) (hls.append hsub)

theorem fenced_flatMap {α : Type} {f : α → List Text} {xs : List α}
    (h : ∀ x ∈ xs, Fenced k (f x)) : Fenced k (xs.flatMap f) := by
  induction xs with
  | nil => exact .nil false
  | cons x xs ih =>
    rw [List.flatMap_cons]
    exact (h x List.mem_cons_self).append (ih fun y hy => h y (List.mem_cons_of_mem _ hy))

theorem WrittenAs.fenced_itemLines (hw : WrittenAs k k' B) {o : Outline}
    (ho : o.All (FencedText k)) (hB : o.All (BeginsWith B)) (indent : Nat) :
    Fenced k' ((itemLines indent o).flatMap Text.lines) := by
  induction ho generalizing indent with
  | intro htop _ ih =>
    refine hw.fenced_item htop hB.top ?_
    rw [flatMap_lines_listLines]
    exact fenced_flatMap fun p hp => ih p hp (hB.sub p hp) _

theorem WrittenAs.fenced_listLines (hw : WrittenAs k k' B) {os : List Outline}
    (hos : ∀ o ∈ os, o.All (FencedText k)) (hB : ∀ o ∈ os, o.All (BeginsWith B)) (indent : Nat) :
    Fenced k' ((listLines indent os).flatMap Text.lines) := by
  rw [flatMap_lines_listLines]
  exact fenced_flatMap fun o ho => hw.fenced_itemLines (hos o ho) (hB o ho) indent

/-- Lines at the margin are what they were. -/
theorem WrittenAs.fenced_lines (hw : WrittenAs k k' B) {ls : List Text} (h : Fenced k ls) :
    Fenced k' ls := by
  have hmap := h.map fun _ _ _ h => hw.indent 0 h
  have hid : ls.map (indentLine 0) = ls := List.map_id ls
  rwa [hid] at hmap

/-! ## Where a block is written -/

variable {block : List Text} {level : Nat}

/-- Lines hold a block, and the lines above it are fenced. -/
def LinesHold (k : LineKinds) (block ls : List Text) : Prop :=
  ∃ above below, ls = above ++ block ++ below ∧ Fenced k above

theorem LinesHold.append {ls : List Text} (h : LinesHold k block ls) (ms : List Text) :
    LinesHold k block (ls ++ ms) := by
  obtain ⟨above, below, rfl, habove⟩ := h
  exact ⟨above, below ++ ms, List.append_assoc _ below ms, habove⟩

theorem LinesHold.of_fenced {ls ms : List Text} (hls : Fenced k ls) (h : LinesHold k block ms) :
    LinesHold k block (ls ++ ms) := by
  obtain ⟨above, below, rfl, habove⟩ := h
  exact ⟨ls ++ above, below, by simp, hls.append habove⟩

theorem LinesHold.flatMap {α : Type} {f : α → List Text} {xs : List α} {x : α} (hx : x ∈ xs)
    (h : LinesHold k block (f x)) (hxs : ∀ y ∈ xs, Fenced k (f y)) :
    LinesHold k block (xs.flatMap f) := by
  obtain ⟨ys, zs, rfl⟩ := List.append_of_mem hx
  rw [List.flatMap_append, List.flatMap_cons]
  exact .of_fenced (fenced_flatMap fun y hy => hxs y (List.mem_append_left _ hy)) (h.append _)

/-- A block in an item is below the first line of the item, if that line is not the one that opens
the block. So all of it is indented behind the bullet. -/
theorem WrittenAs.itemLines_hold (hw : WrittenAs k k' B) {o : Outline}
    (h : o.Holds k block level) (hb : IsBlock block) (hopening : ∀ l ∈ block.head?, ¬ B l)
    (ho : o.All (FencedText k)) (hB : o.All (BeginsWith B)) (indent : Nat) :
    LinesHold k' (block.map (indentLine (indent + 2 * level + 2)))
      ((itemLines indent o).flatMap Text.lines) := by
  induction h generalizing indent with
  | @top o above below habove h =>
    rcases above with _ | ⟨l, above⟩
    · obtain ⟨first, code, rfl⟩ := hb
      have hfirst : first ∈ o.top.lines.head? := by
        rw [h]
        rfl
      exact absurd (hB.top first hfirst) (hopening first rfl)
    · have hl : o.top.lines = l :: (above ++ block ++ below) := h
      obtain ⟨b, hstep, hrun⟩ := habove.cons_inv
      have hBl : B l := hB.top l (by rw [hl]; rfl)
      refine ⟨bulletLine indent l :: above.map (indentLine (indent + 2)),
        below.map (indentLine (indent + 2)) ++
          (listLines (indent + 2) o.sub).flatMap Text.lines, ?_, ?_⟩
      · rw [flatMap_lines_itemLines indent hl]
        simp
      · exact .cons (hw.bullet indent hBl hstep)
          (hrun.map fun _ _ _ h => hw.indent (indent + 2) h)
  | @item o p level hp _ ih =>
    obtain ⟨l, ls, hl⟩ := Text.lines_eq_cons o.top
    have htop := ho.top
    rw [FencedText, hl] at htop
    obtain ⟨b, hstep, hrun⟩ := htop.cons_inv
    have hBl : B l := hB.top l (by rw [hl]; rfl)
    have htext : Fenced k' (bulletLine indent l :: ls.map (indentLine (indent + 2))) :=
      .cons (hw.bullet indent hBl hstep) (hrun.map fun _ _ _ h => hw.indent (indent + 2) h)
    have hindent : indent + 2 * (level + 1) + 2 = indent + 2 + 2 * level + 2 := by omega
    rw [flatMap_lines_itemLines indent hl, flatMap_lines_listLines, hindent, ← List.cons_append]
    refine .of_fenced htext (.flatMap hp (ih (ho.sub p hp) (hB.sub p hp) (indent + 2)) ?_)
    exact fun q hq => hw.fenced_itemLines (ho.sub q hq) (hB.sub q hq) _

/-- **A block is written as it was collected**, indented by its level, with fenced lines above
it. -/
theorem WrittenAs.render_holds (hw : WrittenAs k k' B) {o : Outline} (h : o.Holds k block level)
    (hb : IsBlock block) (hopening : ∀ l ∈ block.head?, ¬ B l) (ho : o.All (FencedText k))
    (hB : o.ItemsBeginWith B) :
    LinesHold k' (block.map (indentLine (2 * level))) (o.render 0).lines := by
  rw [lines_render (h.isEmpty_eq hb), flatMap_lines_listLines]
  cases h with
  | @top _ above below habove h =>
    have hmap : block.map (indentLine (2 * 0)) = block := List.map_id block
    rw [hb.isEmpty_eq h, if_neg Bool.false_ne_true, h, hmap]
    exact LinesHold.append ⟨above, below, rfl, hw.fenced_lines habove⟩ _
  | @item _ p level hp h =>
    have hitem : LinesHold k' (block.map (indentLine (0 + 2 * level + 2)))
        ((itemLines 0 p).flatMap Text.lines) :=
      hw.itemLines_hold h hb hopening (ho.sub p hp) (hB p hp) 0
    rw [Nat.zero_add] at hitem
    refine .of_fenced ?_ (.flatMap hp hitem ?_)
    · split
      · exact .nil false
      · exact hw.fenced_lines ho.top
    · exact fun q hq => hw.fenced_itemLines (ho.sub q hq) (hB q hq) 0

end DoxygenMarkdown

import DoxygenMarkdown.Proofs.Fences.Entries
import Mathlib.Data.List.SplitBy

/-!
# Entries can be told apart

Six parts of a documentation are lists of entries below a heading (`ListPart`), and a few others are
block quotes. Nothing that is said in an entry gets out of it: an entry begins with a star at the
margin, and all its other lines are indented (`IsEntry`). These are the lines of a text of several
lines, code among them, a suffix that had to leave the line of a fence, and the items below the
entry at any depth. So the stars at the margin count the entries, and the lines of a part are cut
into its entries where there is such a star: **`toMarkdown_keeps_apart`**.

What carries this is that text is only ever hung below a first line (`IsHung`): hanging it, adding a
suffix and putting a list below it all leave it hung.
-/

namespace DoxygenMarkdown

open Markdown

/-! ## Lines that are indented -/

/-- A line that is indented by two columns at least. -/
def isIndented (l : Text) : Bool := l.startsWith "  ".toList

theorem isIndented_indentLine {n : Nat} (hn : 2 ≤ n) (l : Text) :
    isIndented (indentLine n l) = true := by
  obtain ⟨m, rfl⟩ := Nat.exists_eq_add_of_le' hn
  rfl

theorem isIndented_append {l : Text} (h : isIndented l = true) (u : Text) :
    isIndented (l ++ u) = true := by
  obtain ⟨rest, hrest⟩ := Option.isSome_iff_exists.1 h
  obtain rfl : l = "  ".toList ++ rest := Text.after?_eq_some_iff.1 hrest
  rfl

namespace Outline

mutual

/-- Every line of an item is indented as the item is. -/
theorem isIndented_itemLines {n : Nat} (hn : 2 ≤ n) :
    (o : Outline) → ∀ l ∈ (itemLines n o).flatMap Text.lines, isIndented l = true
  | ⟨top, sub⟩ => by
    obtain ⟨k, ks, htop⟩ := Text.lines_eq_cons top
    have hsub := isIndented_listLines (show 2 ≤ n + 2 by omega) sub
    rw [flatMap_lines_itemLines n htop, List.forall_mem_cons, List.forall_mem_append]
    refine ⟨isIndented_indentLine hn _, fun l hl => ?_, hsub⟩
    obtain ⟨k, -, rfl⟩ := List.mem_map.1 hl
    exact isIndented_indentLine (by omega) k

/-- And so is every line of a list. -/
theorem isIndented_listLines {n : Nat} (hn : 2 ≤ n) :
    (os : List Outline) → ∀ l ∈ (listLines n os).flatMap Text.lines, isIndented l = true
  | [] => by
    rw [listLines]
    exact fun _ hl => absurd hl List.not_mem_nil
  | o :: os => by
    rw [listLines, List.flatMap_append, List.forall_mem_append]
    exact ⟨isIndented_itemLines hn o, isIndented_listLines hn os⟩

end

end Outline

/-- All lines of a text but the first are indented. -/
def IsHung (t : Text) : Prop := ∀ l ∈ t.lines.tail, isIndented l = true

theorem isHung_hang (t : Text) : IsHung (Text.hang 2 t) := by
  obtain ⟨l, ls, ht⟩ := Text.lines_eq_cons t
  rw [IsHung, Text.lines_hang 2 ht, List.tail_cons]
  intro k hk
  obtain ⟨m, -, rfl⟩ := List.mem_map.1 hk
  exact isIndented_indentLine (Nat.le_refl 2) m

/-- What goes on with the last line of a text leaves it hung. -/
theorem IsHung.append {t u : Text} (h : IsHung t) (hu : '\n' ∉ u) : IsHung (t ++ u) := by
  obtain ⟨ls, l, hls⟩ := Text.lines_eq_concat t
  rw [IsHung, hls] at h
  rw [IsHung, Text.lines_append hls (Text.lines_of_notMem hu)]
  rcases ls with _ | ⟨k, ls⟩
  · exact fun _ hm => absurd hm List.not_mem_nil
  · rw [List.cons_append, List.tail_cons, List.forall_mem_append] at h ⊢
    have hl := h.2 l (List.mem_singleton_self l)
    exact ⟨h.1, fun m hm => List.mem_singleton.1 hm ▸ isIndented_append hl u⟩

/-- A line below a text leaves it hung if the line is indented. -/
theorem IsHung.append_break {t l : Text} (h : IsHung t) (hbreak : '\n' ∉ l)
    (hl : isIndented l = true) : IsHung (t ++ '\n' :: l) := by
  rw [IsHung, Text.lines_append_break, Text.lines_of_notMem hbreak,
    List.tail_append_of_ne_nil (Text.lines_ne_nil t), List.forall_mem_append]
  exact ⟨h, fun m hm => List.mem_singleton.1 hm ▸ hl⟩

/-- A suffix of an entry: nothing at all, or one line that begins with a space. -/
def IsSuffix (suffix : Text) : Prop := suffix = [] ∨ ∃ t, suffix = ' ' :: t ∧ '\n' ∉ t

theorem IsHung.addSuffix {t suffix : Text} (h : IsHung t) (hs : IsSuffix suffix) :
    IsHung (addSuffix t suffix) := by
  rcases hs with rfl | ⟨u, rfl, hu⟩
  · exact h.append List.not_mem_nil
  · have hbreak : '\n' ∉ ' ' :: u := fun hmem =>
      hu ((List.mem_cons.1 hmem).resolve_left (by decide))
    rw [Markdown.addSuffix]
    split
    · -- behind a fence the suffix goes down, to a line that begins with two spaces
      rw [List.append_assoc]
      refine h.append_break (l := ' ' :: ' ' :: u) ?_ rfl
      exact fun hmem => hbreak ((List.mem_cons.1 hmem).resolve_left (by decide))
    · exact h.append hbreak

/-! ## Entries -/

/-- A line that begins an entry: there is a star at the margin. -/
def beginsEntry (l : Text) : Bool := l.startsWith "* ".toList

/-- The lines of an entry. Its first line has a star at the margin, and all others are indented. -/
def IsEntry (ls : List Text) : Prop :=
  ∃ first more, ls = first :: more ∧ beginsEntry first = true ∧ ∀ l ∈ more, isIndented l = true

theorem isEntry_listEntry {suffix : Text} (hs : IsSuffix suffix) (head : Text)
    (content : Option Outline) : IsEntry (listEntry head content suffix).lines := by
  let body := addSuffix (Text.hang 2 (entryText head content)) suffix
  obtain ⟨l, ls, hbody⟩ := Text.lines_eq_cons body
  have hhung : IsHung body := (isHung_hang _).addSuffix hs
  rw [IsHung, hbody, List.tail_cons] at hhung
  have hfirst : Text.lines ('*' :: ' ' :: body) = ('*' :: ' ' :: l) :: ls :=
    Text.lines_cons (by decide) (Text.lines_cons (by decide) hbody)
  let items := (Outline.listLines 2 ((content.map (·.sub)).getD [])).flatMap Text.lines
  have hitems : ∀ l ∈ items, isIndented l = true :=
    Outline.isIndented_listLines (Nat.le_refl 2) _
  refine ⟨'*' :: ' ' :: l, ls ++ items, ?_, rfl, List.forall_mem_append.2 ⟨hhung, hitems⟩⟩
  rw [lines_listEntry, hfirst]
  rfl

theorem isEntry_parameterEntry (p : Parameter) : IsEntry (parameterEntry p).lines := by
  refine isEntry_listEntry ?_ _ _
  rcases p.direction with _ | d
  · exact .inl rfl
  · exact .inr ⟨_, rfl, by cases d <;> decide⟩

theorem isEntry_returnValueEntry (v : Explained) : IsEntry (returnValueEntry v).lines :=
  isEntry_listEntry (.inl rfl) _ _

theorem isEntry_throwsEntry (v : Explained) : IsEntry (throwsEntry v).lines :=
  isEntry_listEntry (.inl rfl) _ _

theorem isEntry_plainEntry (o : Outline) : IsEntry (plainEntry o).lines :=
  isEntry_listEntry (.inl rfl) _ _

/-- A line that is indented begins no entry. -/
theorem beginsEntry_of_isIndented {l : Text} (h : isIndented l = true) : beginsEntry l = false := by
  obtain ⟨rest, hrest⟩ := Option.isSome_iff_exists.1 h
  obtain rfl : l = "  ".toList ++ rest := Text.after?_eq_some_iff.1 hrest
  rfl

/-- The stars at the margin count the entries. -/
theorem countP_beginsEntry {es : List (List Text)} (h : ∀ e ∈ es, IsEntry e) :
    es.flatten.countP beginsEntry = es.length := by
  induction es with
  | nil => rfl
  | cons e es ih =>
    rw [List.forall_mem_cons] at h
    obtain ⟨⟨first, more, rfl, hfirst, hmore⟩, hes⟩ := h
    have hnone : more.countP beginsEntry = 0 :=
      List.countP_eq_zero.2 fun l hl => by simp [beginsEntry_of_isIndented (hmore l hl)]
    rw [List.flatten_cons, List.countP_append, List.countP_cons_of_pos hfirst, hnone, ih hes,
      List.length_cons]
    omega

/-- Cut lines where an entry begins. -/
def cutEntries (ls : List Text) : List (List Text) := ls.splitBy fun _ l => !beginsEntry l

/-- Entries that are written one below the other are cut apart again. -/
theorem cutEntries_flatten {es : List (List Text)} (h : ∀ e ∈ es, IsEntry e) :
    cutEntries es.flatten = es := by
  refine List.splitBy_flatten ?_ (fun e he => ?_) ?_
  · intro hnil
    obtain ⟨first, more, hcons, -⟩ := h [] hnil
    cases hcons
  · -- within an entry no line begins another one
    obtain ⟨first, more, rfl, -, hmore⟩ := h e he
    have hnot : ∀ l ∈ more, (!beginsEntry l) = true := fun l hl => by
      rw [beginsEntry_of_isIndented (hmore l hl)]
      rfl
    refine List.Pairwise.isChain (List.pairwise_cons.2 ⟨fun l hl => hnot l hl, ?_⟩)
    exact List.pairwise_of_forall_mem_list fun _ _ l hl => hnot l hl
  · -- and behind an entry the next one begins
    refine List.Pairwise.isChain (List.pairwise_of_forall_mem_list fun e he f hf => ?_)
    obtain ⟨first, more, rfl, -⟩ := h e he
    obtain ⟨first', more', rfl, hfirst, -⟩ := h f hf
    exact ⟨List.cons_ne_nil _ _, List.cons_ne_nil _ _, by rw [List.head_cons, hfirst]; rfl⟩

/-! ## The parts that are lists of entries -/

/-- A part of a documentation that is a list of entries. -/
inductive ListPart where
  | returns
  | parameters
  | returnValues
  | throws
  | notes
  | todos
deriving DecidableEq, Repr

namespace ListPart

/-- What the heading of a part says. -/
def title : ListPart → String
  | returns => "Returns"
  | parameters => "Arguments"
  | returnValues => "Return values"
  | throws => "Throws"
  | notes => "Notes"
  | todos => "To Do"

/-- The entries of a part, if it is there. -/
def entries? (doc : Documentation) : ListPart → Option (List Text)
  | returns => doc.returns.map (·.map plainEntry)
  | parameters => doc.parameters.map (·.map parameterEntry)
  | returnValues => doc.returnValues.map (·.map returnValueEntry)
  | throws => doc.throws.map (·.map throwsEntry)
  | notes => doc.notes.map (·.map plainEntry)
  | todos => doc.todos.map (·.map plainEntry)

variable {doc : Documentation} {part : ListPart} {es : List Text}

theorem sectionOf_mem_blocks (h : part.entries? doc = some es) (level : Int) :
    sectionOf part.title es level ∈ blocks level doc := by
  cases part <;> obtain ⟨xs, hxs, rfl⟩ := Option.map_eq_some_iff.1 h <;> simp [blocks, title, hxs]

theorem isEntry_of_mem (h : part.entries? doc = some es) : ∀ e ∈ es, IsEntry e.lines := by
  have hmap {α : Type} (f : α → Text) (hf : ∀ x, IsEntry (f x).lines) {xs : Option (List α)}
      (hxs : xs.map (·.map f) = some es) : ∀ e ∈ es, IsEntry e.lines := by
    obtain ⟨xs, -, rfl⟩ := Option.map_eq_some_iff.1 hxs
    intro e he
    obtain ⟨x, -, rfl⟩ := List.mem_map.1 he
    exact hf x
  cases part with
  | returns => exact hmap plainEntry isEntry_plainEntry h
  | parameters => exact hmap parameterEntry isEntry_parameterEntry h
  | returnValues => exact hmap returnValueEntry isEntry_returnValueEntry h
  | throws => exact hmap throwsEntry isEntry_throwsEntry h
  | notes => exact hmap plainEntry isEntry_plainEntry h
  | todos => exact hmap plainEntry isEntry_plainEntry h

theorem break_notMem_heading (part : ListPart) (level : Int) :
    '\n' ∉ headingLine level part.title.toList := by
  have htitle : '\n' ∉ part.title.toList := by cases part <;> decide
  simp [headingLine, htitle]

end ListPart

/-! ## The lines of a documentation -/

/-- A text has some lines one below the other, with an empty line below them. -/
def HasLines (t : Text) (ls : List Text) : Prop :=
  ∃ above below, t.lines = above ++ ls ++ [] :: below

theorem lines_flatMap_breaks (bs : List Text) :
    Text.lines (bs.flatMap (· ++ "\n\n".toList)) =
      bs.flatMap (fun b => b.lines ++ [[]]) ++ [[]] := by
  induction bs with
  | nil => rfl
  | cons b bs ih =>
    have hcons : (b :: bs).flatMap (· ++ "\n\n".toList) =
        b ++ '\n' :: '\n' :: bs.flatMap (· ++ "\n\n".toList) := by simp
    rw [hcons, Text.lines_append_break, Text.lines_cons_break, ih, List.flatMap_cons]
    simp

theorem hasLines_of_mem_blocks {level : Int} {doc : Documentation} {b : Text}
    (h : b ∈ blocks level doc) : HasLines (doc.toMarkdown level) b.lines := by
  obtain ⟨above, below, hblocks⟩ := List.append_of_mem h
  refine ⟨above.flatMap fun b => b.lines ++ [[]],
    below.flatMap (fun b => b.lines ++ [[]]) ++ [[]], ?_⟩
  rw [Documentation.toMarkdown, lines_flatMap_breaks, hblocks]
  simp

theorem hasLines_listPart {doc : Documentation} {part : ListPart} {es : List Text}
    (h : part.entries? doc = some es) (level : Int) :
    HasLines (doc.toMarkdown level)
      (headingLine level part.title.toList :: [] :: es.flatMap Text.lines) := by
  obtain ⟨above, below, hlines⟩ := hasLines_of_mem_blocks (part.sectionOf_mem_blocks h level)
  have hsection : (sectionOf part.title es level).lines =
      headingLine level part.title.toList :: [] :: (Text.unlines es).lines := by
    rw [sectionOf, List.append_assoc]
    refine (Text.lines_append_break _ _).trans ?_
    rw [Text.lines_of_notMem (part.break_notMem_heading level)]
    exact congrArg (_ :: ·) (Text.lines_cons_break _)
  rw [hsection] at hlines
  by_cases hes : es = []
  · -- a part without entries leaves an empty line where they would be
    subst hes
    exact ⟨above, [] :: below, by rw [hlines]; simp [Text.unlines, Text.lines]⟩
  · rw [Text.lines_unlines_flatMap hes] at hlines
    exact ⟨above, below, hlines⟩

/-- The parts of a documentation that are block quotes. -/
def quotes (doc : Documentation) : List Text :=
  (doc.warnings.getD []).map (blockQuote "**Warning:** ") ++
    (doc.since.map (blockQuote "Available since: ")).toList

theorem mem_blocks_of_mem_quotes {doc : Documentation} {q : Text} (h : q ∈ quotes doc)
    (level : Int) : q ∈ blocks level doc := by
  rw [quotes, List.mem_append] at h
  simp only [blocks, List.mem_append]
  tauto

/-- Every line of a block quote begins with its sign. -/
theorem startsWith_of_mem_quotes {doc : Documentation} {q : Text} (h : q ∈ quotes doc) :
    ∀ l ∈ q.lines, l.startsWith ['>'] = true := by
  have hquote (label : String) (o : Outline) :
      ∀ l ∈ (blockQuote label o).lines, l.startsWith ['>'] = true := by
    rw [lines_blockQuote]
    intro l hl
    obtain ⟨k, -, rfl⟩ := List.mem_map.1 hl
    rw [quoteLine]
    split <;> rfl
  rcases List.mem_append.1 h with h | h
  · obtain ⟨o, -, rfl⟩ := List.mem_map.1 h
    exact hquote _ o
  · obtain ⟨o, -, rfl⟩ := Option.map_eq_some_iff.1 (Option.mem_toList.1 h)
    exact hquote _ o

/-- **Entries are kept apart.** Whatever a documentation says, below the heading of a part that is a
list there are its entries and nothing else: each begins with a star at the margin and is indented
from its second line on, so there are as many stars at the margin as entries, and cutting where they
stand gives the entries. In block quotes, no line is without the sign of the quote. -/
theorem toMarkdown_keeps_apart (level : Int) (doc : Documentation) :
    (∀ (part : ListPart) (es : List Text), part.entries? doc = some es →
      HasLines (doc.toMarkdown level)
          (headingLine level part.title.toList :: [] :: es.flatMap Text.lines) ∧
        (∀ e ∈ es, IsEntry e.lines) ∧
        (es.flatMap Text.lines).countP beginsEntry = es.length ∧
        cutEntries (es.flatMap Text.lines) = es.map Text.lines) ∧
      ∀ q ∈ quotes doc, HasLines (doc.toMarkdown level) q.lines ∧
        ∀ l ∈ q.lines, l.startsWith ['>'] = true := by
  refine ⟨fun part es h => ?_, fun q hq => ?_⟩
  · have hentries := ListPart.isEntry_of_mem h
    have hlines : ∀ e ∈ es.map Text.lines, IsEntry e := by
      intro e he
      obtain ⟨t, ht, rfl⟩ := List.mem_map.1 he
      exact hentries t ht
    have hcount := countP_beginsEntry hlines
    rw [List.length_map, ← List.flatMap_def] at hcount
    have hcut := cutEntries_flatten hlines
    rw [← List.flatMap_def] at hcut
    exact ⟨hasLines_listPart h level, hentries, hcount, hcut⟩
  · exact ⟨hasLines_of_mem_blocks (mem_blocks_of_mem_quotes hq level), startsWith_of_mem_quotes hq⟩

/-- Lines that look like entries stay where they were said. -/
example : (plainEntry ⟨"a\n* b".toList, [.leaf "c\n* d".toList]⟩).lines =
    ["* a".toList, "  * b".toList, "  - c".toList, "    * d".toList] := by decide

end DoxygenMarkdown

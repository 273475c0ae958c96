import DoxygenMarkdown.Proofs.Outline
import DoxygenMarkdown.Proofs.Sections.Group

/-!
# Indented lines are attached to one node

Lines that go on with an element change its outline and nothing else, and each of them changes one
node on the edge of that (`Attaches`): an item is put below the others of the node, and other text
is put behind the text of the node. All other nodes stay as they are, so no word is lost, and none
is there twice: in the end the outline has the words that it had and those of the lines
(`readLines_continuations`).

Where the node is depends on the columns that are open, but it is on the edge whichever they are, so
nothing is asked of them.
-/

namespace DoxygenMarkdown

namespace Outline

/-- The words of all texts of an outline. -/
def words (o : Outline) : List Text := o.texts.flatMap Text.words

theorem words_within (nodes : List Outline) (p : Outline) :
    words (within nodes p) = nodes.flatMap words ++ words p := by
  rw [words, texts_within, List.flatMap_append, List.flatMap_assoc]
  rfl

theorem words_eq (o : Outline) : o.words = o.top.words ++ (listTexts o.sub).flatMap Text.words := by
  rw [words, texts_eq, List.flatMap_cons]

theorem words_addItem (t : Text) (o : Outline) : (o.addItem t).words = o.words ++ t.words := by
  rw [words, texts_addItem, List.flatMap_append, List.flatMap_singleton]
  rfl

/-- Words that the first text gains are gained by the outline. -/
theorem words_perm_of_top {o o' : Outline} {ws : List Text} (hsub : o'.sub = o.sub)
    (htop : o'.top.words = o.top.words ++ ws) : o'.words.Perm (o.words ++ ws) := by
  rw [words_eq, words_eq, hsub, htop, List.append_assoc, List.append_assoc]
  exact List.perm_append_comm.append_left _

/-- Behind the text of a node comes nothing, a space or a line break. It is nothing only if there is
no text. -/
def IsGap (top gap : Text) : Prop := gap = [] ∧ top = [] ∨ gap = [' '] ∨ gap = ['\n']

theorem words_append_gap {top gap : Text} (h : IsGap top gap) (t : Text) :
    Text.words (top ++ gap ++ t) = top.words ++ t.words := by
  rw [List.append_assoc]
  rcases h with ⟨rfl, rfl⟩ | rfl | rfl
  · rfl
  · exact Text.words_append_blank (show isBlank ' ' = true by decide) top t
  · exact Text.words_append_blank (show isBlank '\n' = true by decide) top t

theorem exists_gap (t : Text) (p : Outline) :
    ∃ gap, IsGap p.top gap ∧ p.continueWith t = { p with top := p.top ++ gap ++ t } := by
  rw [continueWith]
  split
  · next hempty =>
    have htop : p.top = [] := List.isEmpty_iff.1 hempty
    exact ⟨[], .inl ⟨rfl, htop⟩, by rw [htop]; rfl⟩
  split
  · exact ⟨['\n'], .inr (.inr rfl), by rw [List.append_assoc]; rfl⟩
  · exact ⟨[' '], .inr (.inl rfl), by rw [List.append_assoc]; rfl⟩

end Outline

namespace Comment

/-- An indented line changes one node on the edge of an outline, and no other: an item becomes the
last one of the node, and other text comes behind the text of the node. -/
inductive Attaches (l : IndentedLine) : Outline → Outline → Prop
  | item (hl : l.isItem = true) (nodes : List Outline) (p : Outline) :
    Attaches l (Outline.within nodes p) (Outline.within nodes (p.addItem l.text))
  | text (hl : l.isItem = false) (nodes : List Outline) (p : Outline) {gap : Text}
    (hgap : Outline.IsGap p.top gap) :
    Attaches l (Outline.within nodes p)
      (Outline.within nodes { p with top := p.top ++ gap ++ l.text })

/-- A line adds its words to those of the outline. -/
theorem Attaches.words_perm {l : IndentedLine} {o o' : Outline} (h : Attaches l o o') :
    o'.words.Perm (o.words ++ l.text.words) := by
  cases h with
  | item _ nodes p =>
    rw [Outline.words_within, Outline.words_within, Outline.words_addItem, List.append_assoc]
  | text _ nodes p hgap =>
    rw [Outline.words_within, Outline.words_within, List.append_assoc (nodes.flatMap Outline.words)]
    refine List.Perm.append_left _ (Outline.words_perm_of_top rfl ?_)
    exact Outline.words_append_gap hgap l.text

/-- To go on with an outline is to change the node that lies where the columns say. -/
theorem goOn_within {l : IndentedLine} {n : Nesting} {nodes : List Outline} {p : Outline}
    (hp : Outline.LiesAt (n.enter l.indent).depth nodes p) :
    goOn (Outline.within nodes p, n) l =
      (Outline.within nodes (if l.isItem then p.addItem l.text else p.continueWith l.text),
        n.enter l.indent) := by
  rw [goOn, hp]
  split <;> rfl

/-- Going on with an outline attaches the line, whatever columns are open. -/
theorem attaches_goOn (p : Outline × Nesting) (l : IndentedLine) : Attaches l p.1 (goOn p l).1 := by
  obtain ⟨o, n⟩ := p
  obtain ⟨nodes, q, rfl, hq⟩ := Outline.exists_liesAt (n.enter l.indent).depth o
  rw [goOn_within hq]
  by_cases hitem : l.isItem = true
  · rw [if_pos hitem]
    exact .item hitem nodes q
  · obtain ⟨gap, hgap, htext⟩ := Outline.exists_gap l.text q
    rw [if_neg hitem, htext]
    exact .text (Bool.eq_false_iff.2 hitem) nodes q hgap

/-- Lines that go on with an outline add their words, one after the other. -/
theorem words_foldl_goOn (ls : List IndentedLine) (p : Outline × Nesting) :
    (ls.foldl goOn p).1.words.Perm (p.1.words ++ ls.flatMap (·.text.words)) := by
  induction ls generalizing p with
  | nil => rw [List.flatMap_nil, List.append_nil, List.foldl_nil]
  | cons l ls ih =>
    rw [List.foldl_cons, List.flatMap_cons, ← List.append_assoc]
    exact (ih (goOn p l)).trans ((attaches_goOn p l).words_perm.append_right _)

/-- **Attaching lines loses, doubles and disturbs nothing.** Outside code, lines go on with the last
element, which takes them, whatever columns are open. All other elements stay, and so do all nodes
but one of the last element, line by line. In the end that has its own words and those of the
lines. -/
theorem readLines_continuations {e : Element} {o : Outline} (htakes : e.takesLines = true)
    (ho : e.content? = some o) (es : List Element) (n : Nesting) {ls : List Text}
    (hls : ∀ l ∈ ls, IsContinuation l) :
    ∃ o' n', readLines ⟨e :: es, n, none⟩ ls = .ok ⟨e.withContent o' :: es, n', none⟩ ∧
      o'.words.Perm (o.words ++ ls.flatMap fun l => (readIndented (dropStar l)).text.words) ∧
      ∀ before l after, ls = before ++ l :: after →
        ∃ o₁ n₁ o₂ n₂,
          readLines ⟨e :: es, n, none⟩ before = .ok ⟨e.withContent o₁ :: es, n₁, none⟩ ∧
          State.step ⟨e.withContent o₁ :: es, n₁, none⟩ l =
            .ok ⟨e.withContent o₂ :: es, n₂, none⟩ ∧
          Attaches (readIndented (dropStar l)) o₁ o₂ := by
  have hread : ∀ {ks : List Text}, (∀ l ∈ ks, IsContinuation l) →
      readLines ⟨e :: es, n, none⟩ ks =
        let p := (ks.map fun l => readIndented (dropStar l)).foldl goOn (o, n)
        .ok ⟨e.withContent p.1 :: es, p.2, none⟩ := by
    intro ks hks
    have h := readLines_below htakes es hks (o, n)
    rwa [Element.withContent_eq_self ho] at h
  refine ⟨_, _, hread hls, ?_, ?_⟩
  · have hwords := words_foldl_goOn (ls.map fun l => readIndented (dropStar l)) (o, n)
    rwa [List.flatMap_map] at hwords
  · rintro before l after rfl
    obtain ⟨hbefore, hl, -⟩ := List.forall_mem_append.1 hls |>.imp_right List.forall_mem_cons.1
    exact ⟨_, _, _, _, hread hbefore, State.step_goOn htakes es hl _, attaches_goOn _ _⟩

/-- A bullet, text that is wrapped below it, an empty bullet, and text of the element again behind
the fence of its code. -/
theorem readLines_continuations_behind_fence :
    ∃ o' n', readLines ⟨[.plain (.leaf "a\n```\nb\n```".toList)], {}, none⟩
        ["  - c".toList, "    d".toList, "      -".toList, " e".toList] =
          .ok ⟨[.plain o'], n', none⟩ ∧
      o'.words.Perm (["a", "```", "b", "```", "c", "d", "e"].map String.toList) := by
  have hls : ∀ l ∈ ["  - c".toList, "    d".toList, "      -".toList, " e".toList],
      IsContinuation l := by decide
  obtain ⟨o', n', hread, hwords, -⟩ := readLines_continuations
    (e := .plain (.leaf "a\n```\nb\n```".toList)) rfl rfl [] {} hls
  exact ⟨o', n', hread, hwords⟩

end Comment

end DoxygenMarkdown

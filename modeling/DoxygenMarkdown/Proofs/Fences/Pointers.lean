import DoxygenMarkdown.Proofs.Fences.Kept
import DoxygenMarkdown.Proofs.Fences.Written
import DoxygenMarkdown.Rendering

/-!
# Pointers are dropped from text, not from code

A line of a comment that stands behind an item may begin with a pointer, and a paragraph drops such
pointers. Code must not change, so the lines that are code are left out: those below a line that
begins with a fence, up to the next such line. That is asked of the lines as they are written, and
it agrees with the blocks that were read as long as all fences at the beginning of a line are those
of blocks (`fenceLines`), and no item begins with one.

* Then each block of code that goes to the description is found in a paragraph as it was collected,
  indented by its level and by nothing else, and the lines around it are text
  (`renderComment_keeps_code`).
* A block that an item begins with has its first fence behind a bullet. There it is not seen, its
  lines are taken for text, and a pointer is dropped from them (`renderComment_loses_code`).
-/

namespace DoxygenMarkdown

namespace Markdown

/-- A line without the pointer that it begins with. -/
def withoutPointer (line : Text) : Text := line.takeWhile isBlank ++ line.trimStart.drop 2

/-- Whether a line begins with a pointer. -/
def hasPointer (line : Text) : Bool := line.trimStart.startsWith "< ".toList

end Markdown

open Markdown

/-! ## Lines that begin with a fence -/

/-- The kinds of lines that a comment is made of, told apart by a fence at the beginning. -/
def fenceLines : LineKinds where
  text l := isFenceLine l = false
  opening l := isFenceLine l = true
  code l := isFenceLine l = false
  closing l := l = fence

/-- The same, with a fence that closes a block at any indentation. -/
def writtenFenceLines : LineKinds where
  text l := isFenceLine l = false
  opening l := isFenceLine l = true
  code l := isFenceLine l = false
  closing l := isFenceLine l = true

theorem isFenceLine_cons_of_blank {c : Char} (hc : isBlank c = true) (l : Text) :
    isFenceLine (c :: l) = isFenceLine l := by
  rw [isFenceLine, isFenceLine, Text.trimStart, Text.trimStart, List.dropWhile_cons_of_pos hc]

theorem isFenceLine_indentLine (n : Nat) (l : Text) :
    isFenceLine (indentLine n l) = isFenceLine l := by
  induction n with
  | zero => rfl
  | succ n ih => exact (isFenceLine_cons_of_blank (by decide) _).trans ih

theorem isFenceLine_bulletLine (n : Nat) (l : Text) : isFenceLine (bulletLine n l) = false := by
  rw [bulletLine, isFenceLine_indentLine, isFenceLine, Text.trimStart_cons (by decide)]
  rfl

/-- Text that goes on behind a space begins with a fence only if one of its parts does. -/
theorem isFenceLine_append_space {x y : Text} (hx : isFenceLine x = false)
    (hy : isFenceLine y = false) : isFenceLine (x ++ ' ' :: y) = false := by
  induction x with
  | nil => rwa [List.nil_append, isFenceLine_cons_of_blank (by decide)]
  | cons c x ih =>
    by_cases hc : isBlank c = true
    · rw [isFenceLine_cons_of_blank hc] at hx
      rw [List.cons_append, isFenceLine_cons_of_blank hc]
      exact ih hx
    · have hc : isBlank c = false := Bool.eq_false_iff.2 hc
      rw [isFenceLine, Text.trimStart_cons hc] at hx
      rw [List.cons_append, isFenceLine, Text.trimStart_cons hc, ← List.cons_append,
        Text.startsWith_append (by decide), hx]

theorem fenceLines_ofReader : fenceLines.OfReader where
  closing_iff := Iff.rfl
  not_text_fence := Bool.not_eq_false _ ▸ (by decide : isFenceLine fence = true)
  text_nil := rfl
  text_dash := rfl
  text_join := isFenceLine_append_space

/-- Behind a bullet, a line stays what it is if it does not begin with a fence. -/
theorem fenceLines_writtenAs :
    WrittenAs fenceLines writtenFenceLines fun l => isFenceLine l = false where
  indent n h := by
    have hl := isFenceLine_indentLine n
    cases h with
    | text h => exact .text ((hl _).trans h)
    | opening h => exact .opening ((hl _).trans h)
    | code h => exact .code ((hl _).trans h)
    | closing h =>
      obtain rfl : _ = fence := h
      exact .closing ((hl _).trans (by decide))
  bullet n hB h := by
    cases h with
    | text h => exact .text (isFenceLine_bulletLine n _)
    | opening h => exact absurd (h.symm.trans hB) (by decide)

/-! ## Dropping pointers -/

section DropPointers

variable {a b : Bool} {ls ms : List Text} {l : Text}

theorem dropPointers_cons_of_fenceLine (h : isFenceLine l = true) (a : Bool) (ls : List Text) :
    dropPointers a (l :: ls) = l :: dropPointers (!a) ls := by
  rw [dropPointers, if_pos h]

theorem dropPointers_cons_of_code (h : isFenceLine l = false) (ls : List Text) :
    dropPointers true (l :: ls) = l :: dropPointers true ls := by
  rw [dropPointers, h]
  rfl

theorem dropPointers_cons_of_pointer (h : isFenceLine l = false) (hp : hasPointer l = true)
    (ls : List Text) :
    dropPointers false (l :: ls) = withoutPointer l :: dropPointers false ls := by
  rw [hasPointer] at hp
  rw [dropPointers, h, hp]
  rfl

theorem dropPointers_cons_of_text (h : isFenceLine l = false) (hp : hasPointer l = false)
    (ls : List Text) : dropPointers false (l :: ls) = l :: dropPointers false ls := by
  rw [hasPointer] at hp
  rw [dropPointers, h, hp]
  rfl

/-- Lines are gone over from their top, so what stands above some lines only tells whether they
begin in code. -/
theorem dropPointers_append (h : writtenFenceLines.Run a ls b) (ms : List Text) :
    dropPointers a (ls ++ ms) = dropPointers a ls ++ dropPointers b ms := by
  induction h with
  | nil => rfl
  | @cons a b c l ls hl _ ih =>
    rw [List.cons_append]
    cases hl with
    | opening h | closing h =>
      rw [dropPointers_cons_of_fenceLine h, dropPointers_cons_of_fenceLine h]
      exact congrArg (l :: ·) ih
    | code h =>
      rw [dropPointers_cons_of_code h, dropPointers_cons_of_code h, ih]
      rfl
    | text h =>
      cases hp : hasPointer l with
      | true =>
        rw [dropPointers_cons_of_pointer h hp, dropPointers_cons_of_pointer h hp, ih]
        rfl
      | false =>
        rw [dropPointers_cons_of_text h hp, dropPointers_cons_of_text h hp, ih]
        rfl

/-- No pointer is dropped inside a block of code. -/
theorem dropPointers_of_code (h : ∀ l ∈ ls, isFenceLine l = false) (ms : List Text) :
    dropPointers true (ls ++ ms) = ls ++ dropPointers true ms := by
  induction ls with
  | nil => rfl
  | cons l ls ih =>
    rw [List.cons_append, dropPointers_cons_of_code (h l List.mem_cons_self),
      ih fun m hm => h m (List.mem_cons_of_mem _ hm)]
    rfl

/-- A line is kept, or it loses its pointer. -/
theorem dropPointers_cons_cases (a : Bool) (l : Text) (ls : List Text) :
    ∃ b, dropPointers a (l :: ls) = l :: dropPointers b ls ∨
      hasPointer l = true ∧ dropPointers a (l :: ls) = withoutPointer l :: dropPointers b ls := by
  cases h : isFenceLine l with
  | true => exact ⟨!a, .inl (dropPointers_cons_of_fenceLine h a ls)⟩
  | false =>
    cases a with
    | true => exact ⟨true, .inl (dropPointers_cons_of_code h ls)⟩
    | false =>
      cases hp : hasPointer l with
      | true => exact ⟨false, .inr ⟨rfl, dropPointers_cons_of_pointer h hp ls⟩⟩
      | false => exact ⟨false, .inl (dropPointers_cons_of_text h hp ls)⟩

theorem mem_of_mem_withoutPointer {c : Char} (h : c ∈ withoutPointer l) : c ∈ l := by
  rcases List.mem_append.1 h with h | h
  · exact (List.takeWhile_sublist _).subset h
  · exact (List.dropWhile_sublist _).subset (List.mem_of_mem_drop h)

theorem break_notMem_dropPointers (h : ∀ l ∈ ls, '\n' ∉ l) : ∀ l ∈ dropPointers a ls, '\n' ∉ l := by
  induction ls generalizing a with
  | nil => exact fun l hl => absurd hl List.not_mem_nil
  | cons l ls ih =>
    have hl := h l List.mem_cons_self
    have hls := fun b => ih (a := b) fun m hm => h m (List.mem_cons_of_mem _ hm)
    obtain ⟨b, hb | ⟨-, hb⟩⟩ := dropPointers_cons_cases a l ls
    · rw [hb]
      exact List.forall_mem_cons.2 ⟨hl, hls b⟩
    · rw [hb]
      exact List.forall_mem_cons.2 ⟨fun hc => hl (mem_of_mem_withoutPointer hc), hls b⟩

/-- The lines of a paragraph are those of the outline, without their pointers. -/
theorem lines_paragraph (o : Outline) :
    (paragraph o).lines = dropPointers false (o.render 0).lines := by
  have hne : dropPointers false (o.render 0).lines ≠ [] := by
    obtain ⟨l, ls, hl⟩ := Text.lines_eq_cons (o.render 0)
    obtain ⟨b, hb | ⟨-, hb⟩⟩ := dropPointers_cons_cases false l ls
    · rw [hl, hb]
      exact List.cons_ne_nil _ _
    · rw [hl, hb]
      exact List.cons_ne_nil _ _
  exact Text.lines_unlines hne
    (break_notMem_dropPointers fun l hl => Text.break_notMem_of_mem_lines hl)

end DropPointers

/-! ## Blocks in a paragraph -/

/-- A paragraph shows a block as it was collected, indented by its level and by nothing else. Lines
above and below it lose their pointers as they do by themselves, and so does each line below it that
is outside of code and begins with one. -/
def ParagraphKeeps (block : List Text) (level : Nat) (o : Outline) : Prop :=
  ∃ above below : List Text,
    (o.render 0).lines = above ++ block.map (indentLine (2 * level)) ++ below ∧
    (paragraph o).lines = dropPointers false above ++ block.map (indentLine (2 * level)) ++
      dropPointers false below ∧
    ∀ between l rest, below = between ++ l :: rest → Fenced writtenFenceLines between →
      hasPointer l = true →
      (paragraph o).lines = dropPointers false above ++ block.map (indentLine (2 * level)) ++
        (dropPointers false between ++ withoutPointer l :: dropPointers false rest)

theorem isFenceLine_of_hasPointer {l : Text} (h : hasPointer l = true) :
    isFenceLine l = false := by
  rw [hasPointer] at h
  rw [isFenceLine]
  generalize l.trimStart = t at h ⊢
  rcases t with _ | ⟨c, t⟩
  · cases h
  · by_cases hc : c = '<'
    · subst hc
      rfl
    · simp [Text.startsWith, Text.after?, Ne.symm hc] at h

variable {block : List Text} {level : Nat}

/-- Whoever comes to a block outside of code leaves it unchanged. -/
theorem dropPointers_block (hb : IsCodeBlock fenceLines block) (n : Nat) (ms : List Text) :
    dropPointers false (block.map (indentLine n) ++ ms) =
      block.map (indentLine n) ++ dropPointers false ms := by
  obtain ⟨o, code, rfl, ho, hcode⟩ := hb
  have ho : isFenceLine (indentLine n o) = true := (isFenceLine_indentLine n o).trans ho
  have hfence : isFenceLine (indentLine n fence) = true :=
    (isFenceLine_indentLine n fence).trans (by decide)
  have hlines : ∀ l ∈ code.map (indentLine n), isFenceLine l = false := by
    intro l hl
    obtain ⟨m, hm, rfl⟩ := List.mem_map.1 hl
    rw [isFenceLine_indentLine]
    exact hcode m hm
  rw [List.map_cons, List.map_append, List.map_singleton, List.cons_append,
    dropPointers_cons_of_fenceLine ho, List.append_assoc, List.singleton_append, Bool.not_false,
    dropPointers_of_code hlines, dropPointers_cons_of_fenceLine hfence]
  simp

/-- A paragraph in which no item begins with a fence keeps its blocks. -/
theorem Outline.Holds.paragraphKeeps {o : Outline} (h : o.Holds fenceLines block level)
    (hb : IsCodeBlock fenceLines block) (ho : o.All (FencedText fenceLines))
    (hB : o.ItemsBeginWith fun l => isFenceLine l = false) : ParagraphKeeps block level o := by
  have hopening : ∀ l ∈ block.head?, ¬ isFenceLine l = false := by
    obtain ⟨first, code, rfl, hfirst, -⟩ := hb
    rintro l ⟨⟩ hl
    exact absurd (hfirst.symm.trans hl) (by decide)
  obtain ⟨above, below, hlines, habove⟩ :=
    fenceLines_writtenAs.render_holds h hb.isBlock hopening ho hB
  have hparagraph : (paragraph o).lines = dropPointers false above ++
      block.map (indentLine (2 * level)) ++ dropPointers false below := by
    rw [lines_paragraph, hlines, List.append_assoc, dropPointers_append habove,
      dropPointers_block hb, List.append_assoc]
  refine ⟨above, below, hlines, hparagraph, ?_⟩
  rintro between l rest rfl hbetween hp
  rw [hparagraph, dropPointers_append hbetween,
    dropPointers_cons_of_pointer (isFenceLine_of_hasPointer hp) hp]

/-! ## Blocks in what is written -/

theorem infix_intercalate {x sep : Text} {xs : List Text} (h : x ∈ xs) :
    x <:+: List.intercalate sep xs := by
  induction xs with
  | nil => cases h
  | cons y xs ih =>
    rcases xs with _ | ⟨z, xs⟩
    · obtain rfl := List.mem_singleton.1 h
      simp
    · rw [List.intercalate_cons_cons]
      rcases List.mem_cons.1 h with rfl | h
      · rw [List.append_assoc]
        exact (List.prefix_append _ _).isInfix
      · exact (ih h).trans (List.suffix_append _ _).isInfix

theorem infix_flatMap {α : Type} {f : α → Text} {x : α} {xs : List α} (h : x ∈ xs) :
    f x <:+: xs.flatMap f := by
  obtain ⟨ys, zs, rfl⟩ := List.append_of_mem h
  rw [List.flatMap_append, List.flatMap_cons, ← List.append_assoc]
  exact List.infix_append _ _ _

/-- Each paragraph of a description is written. -/
theorem paragraph_infix_toMarkdown {doc : Documentation} {os : List Outline}
    (h : doc.description = some os) {o : Outline} (ho : o ∈ os) (headings : Int) :
    paragraph o <:+: doc.toMarkdown headings := by
  have hblock : List.intercalate "\n\n".toList (os.map paragraph) ∈ blocks headings doc := by
    simp [blocks, h]
  have hparagraph : paragraph o <:+: List.intercalate "\n\n".toList (os.map paragraph) :=
    infix_intercalate (List.mem_map_of_mem ho)
  have hwritten : List.intercalate "\n\n".toList (os.map paragraph) ++ "\n\n".toList <:+:
      doc.toMarkdown headings := by
    rw [Documentation.toMarkdown]
    exact infix_flatMap (f := (· ++ "\n\n".toList)) hblock
  exact hparagraph.trans ((List.prefix_append _ _).isInfix.trans hwritten)

/-! ## The whole way -/

open Comment

instance : DecidablePred fenceLines.text := fun l =>
  inferInstanceAs (Decidable (isFenceLine l = false))

instance : DecidablePred fenceLines.opening := fun l =>
  inferInstanceAs (Decidable (isFenceLine l = true))

instance : DecidablePred fenceLines.code := fun l =>
  inferInstanceAs (Decidable (isFenceLine l = false))

/-- **Code reaches the description as it was collected.** In a comment whose lines begin with a
fence only where a block of code does, each block is found in an element. If the element goes to the
description, the block is in one of the paragraphs that are written, and unless an item of that
paragraph begins with a fence, it is there line by line, indented by its level in the list. -/
theorem renderComment_keeps_code (headings : Int) {t : Text} {es : List Element}
    (hes : elements t = .ok es) (h : KeepsFences fenceLines (sourceLines t))
    (p : CodePassage (sourceLines t)) :
    (∃ before e after level, es = before ++ e :: after ∧ e.Holds fenceLines p.lines level) ∧
    ∀ before e after level, es = before ++ e :: after → e.Holds fenceLines p.lines level →
      (before.foldl Gathering.take {}).Describes e →
      ∃ os o r, (Documentation.ofElements es).description = some os ∧ o ∈ os ∧
        renderComment headings t = .ok r ∧ paragraph o <:+: r.text ∧
        o.Holds fenceLines p.lines level ∧
        (o.ItemsBeginWith (fun l => isFenceLine l = false) → ParagraphKeeps p.lines level o) := by
  obtain ⟨s, hs, -⟩ := exists_of_map_eq_ok ((elements_eq t).symm.trans hes)
  have hall : ∀ e ∈ es, e.All (FencedText fenceLines) :=
    all_of_keepsFences fenceLines_ofReader h hes
  have hblock : IsCodeBlock fenceLines p.lines := p.isCodeBlock fenceLines_ofReader h hs
  refine ⟨exists_element_of_passage fenceLines_ofReader h p hes, ?_⟩
  rintro before e after level rfl he hd
  obtain ⟨o, ho, hholds⟩ := Gathering.exists_paragraph
    (fun f hf => hall f (List.mem_append_left _ hf)) hd hblock.isBlock he
  have hAll : o.All (FencedText fenceLines) :=
    (Gathering.all_ofElements (fun _ _ => FencedText.append_break) hall).description o ho
  have hdescription : (Documentation.ofElements (before ++ e :: after)).description =
      some (Gathering.ofElements (before ++ e :: after)).description := by
    simp only [Documentation.ofElements, Gathering.documentation, Gathering.part?]
    rw [List.isEmpty_eq_false_iff.2 (List.ne_nil_of_mem ho), if_neg Bool.false_ne_true]
  have hinfix := paragraph_infix_toMarkdown hdescription ho headings
  refine ⟨_, o, _, hdescription, ho, renderComment_of_elements hes headings, ?_, hholds, ?_⟩
  · dsimp only
    exact hinfix
  · exact fun hB => hholds.paragraphKeeps hblock hAll hB

/-- A block in an item, with a line that looks like a pointer, and a line with a pointer below it in
the same item. -/
theorem renderComment_keeps_code_in_item :
    ∃ o r, renderComment 1
        "List:\n  - one @code{.c}\n< x\n  @endcode\n    < after".toList = .ok r ∧
      paragraph o <:+: r.text ∧
      ParagraphKeeps ["```c".toList, "< x".toList, "```".toList] 1 o := by
  let item : Outline := .leaf "one\n```c\n< x\n```\n< after".toList
  let list : Outline := ⟨"List:".toList, [item]⟩
  let p : CodePassage
      (sourceLines "List:\n  - one @code{.c}\n< x\n  @endcode\n    < after".toList) :=
    { above := ["List:".toList]
      opening := "  - one @code{.c}".toList
      before := "- one".toList
      opener := "@code{.c}".toList
      body := ["< x".toList]
      below := ["  @endcode".toList, "    < after".toList]
      lines_eq := by decide
      outside := by decide
      opens := by decide
      inside := by decide
      closes := by decide }
  have hes : elements "List:\n  - one @code{.c}\n< x\n  @endcode\n    < after".toList =
      .ok [.plain list, .separator] := rfl
  have hkeeps : KeepsFences fenceLines
      (sourceLines "List:\n  - one @code{.c}\n< x\n  @endcode\n    < after".toList) := by
    decide
  have hitem : item.Holds fenceLines p.lines 0 := by
    have habove : Fenced fenceLines ["one".toList] := .of_forall_text (by decide)
    exact .top habove (by decide : item.top.lines =
      ["one".toList] ++ ["```c".toList, "< x".toList, "```".toList] ++ ["< after".toList])
  obtain ⟨os, o, r, hos, ho, hr, hinfix, -, hkeep⟩ :=
    (renderComment_keeps_code 1 hes hkeeps p).2 [] (.plain list) [.separator] 1 rfl
      ⟨list, rfl, .item (List.mem_singleton_self item) hitem⟩ rfl
  obtain rfl : os = [list] := (Option.some.inj hos).symm
  obtain rfl : o = list := List.mem_singleton.1 ho
  refine ⟨list, r, hr, hinfix, hkeep fun q hq => ?_⟩
  obtain rfl : q = item := List.mem_singleton.1 hq
  have hfirst : ∀ l ∈ some "one".toList, isFenceLine l = false := by decide
  exact Outline.all_leaf hfirst

/-- A block that an item begins with: one of its lines is not found among those that are written,
although fences are where they should be. -/
theorem renderComment_loses_code :
    ∃ (p : CodePassage (sourceLines "List:\n  - @code\n    < x\n    @endcode".toList))
      (r : Rendering),
      KeepsFences fenceLines (sourceLines "List:\n  - @code\n    < x\n    @endcode".toList) ∧
      "  < x".toList ∈ p.lines ∧
      renderComment 1 "List:\n  - @code\n    < x\n    @endcode".toList = .ok r ∧
      ∀ l ∈ r.text.lines, ¬ "< x".toList <:+ l := by
  let p : CodePassage (sourceLines "List:\n  - @code\n    < x\n    @endcode".toList) :=
    { above := ["List:".toList]
      opening := "  - @code".toList
      before := "-".toList
      opener := "@code".toList
      body := ["    < x".toList]
      below := ["    @endcode".toList]
      lines_eq := by decide
      outside := by decide
      opens := by decide
      inside := by decide
      closes := by decide }
  have hes : elements "List:\n  - @code\n    < x\n    @endcode".toList =
      .ok [.plain ⟨"List:".toList, [.leaf "```\n  < x\n```".toList]⟩, .separator] := rfl
  have htext : (Documentation.ofElements [.plain ⟨"List:".toList, [.leaf "```\n  < x\n```".toList]⟩,
      .separator]).toMarkdown 1 = "List:\n- ```\n    x\n  ```\n\n".toList := by decide +kernel
  refine ⟨p, _, by decide, by decide, renderComment_of_elements hes 1, ?_⟩
  rw [htext]
  decide

end DoxygenMarkdown

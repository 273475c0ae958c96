import DoxygenMarkdown.Proofs.Fences.Documented
import DoxygenMarkdown.Rendering

/-!
# Fences come in pairs

A comment that holds no fence of its own is written with its fences in pairs, as long as three
things are true of it:

* outside of code, each line says text that holds its fences in pairs (`ProseIsPaired`): a tag that
  opens a block and one that closes it may stand on the same line, but neither stands there alone;
* what stands behind a heading, a label or a name begins with text, and a name is no part of a fence
  (`Documentation.BeginsWithText`);
* the comment is read at all.

The parts of a documentation are gone through one by one (`forall₂_blocks`). In what is written, the
lines that open and close blocks are those of the outlines of the documentation, in the same order
and behind marks only (`renderComment_pairs_fences`).

The second condition is needed, because a block may be the first thing that is said about a
parameter. Then the name goes before the fence that opens the block, and the fence that closes it
opens another one (`renderComment_displaces_fence`).
-/

namespace DoxygenMarkdown

open Markdown

/-! ## What an element says -/

/-- Whether an element says what it holds at some level. A title is the text of its node only, and
an entry needs a name, which must not be a part of a fence. -/
def Element.IsSaid (level : Nat) : Element → Prop
  | .tagged tag _ content =>
    match Tag.role? tag with
    | some .title => level = 0
    | some .parameter | some .returnValue | some .throws =>
      ∃ named, content.splitName? = some named ∧ HoldsPairs named.1
    | some .endCode | some .unsupported | none => False
    | some _ => True
  | .plain _ => True
  | _ => False

/-- Whether an element says what it holds at some level, and no later one takes its place. -/
def Element.IsKept (level : Nat) (after : List Element) (e : Element) : Prop :=
  e.IsSaid level ∧ ∀ r, e.role? = some r → r.IsReplaced → ∀ f ∈ after, f.role? ≠ some r

/-- A block that an element says is a block in what it says. -/
theorem Element.IsSaid.exists_said {block : List Text} {level : Nat} {e : Element}
    (h : e.IsSaid level) (hb : IsCodeBlock pairedLines block)
    (hholds : e.Holds pairedLines block level) :
    ∃ o, e.said? = some o ∧ o.Holds pairedLines block level := by
  obtain ⟨content, hcontent, hblock⟩ := hholds
  cases e with
  | plain content' => exact ⟨content, hcontent, hblock⟩
  | tagged tag qualifiers content' =>
    obtain rfl := Option.some.inj hcontent
    simp only [Element.IsSaid] at h
    simp only [Element.said?]
    rcases hr : Tag.role? tag with _ | r
    · rw [hr] at h
      exact h.elim
    simp only [hr] at h
    cases r with
    | title =>
      obtain rfl : level = 0 := h
      cases hblock with
      | top habove hlines => exact ⟨_, rfl, .top habove hlines⟩
    | parameter | returnValue | throws =>
      obtain ⟨⟨name, description⟩, hsplit, hname⟩ := h
      obtain ⟨o, ho, hblock⟩ := exists_holds_of_splitName hblock hb hsplit hname
      exact ⟨o, Option.bind_eq_some_iff.2 ⟨_, hsplit, ho⟩, hblock⟩
    | endCode | unsupported => exact h.elim
    | _ => exact ⟨_, rfl, hblock⟩
  | _ => exact h.elim

/-- What an element says goes to some part, and to that of its tag if that part is replaced. -/
theorem Element.IsSaid.exists_part {level : Nat} {e : Element} (h : e.IsSaid level)
    (g : Gathering) : ∃ r, g.partOf? e = some r ∧ (r.IsReplaced → e.role? = some r) := by
  have hlines : ¬ g.linesGoTo.IsReplaced := by
    unfold Gathering.linesGoTo
    split
    · next b _ => rcases b with ⟨_ | _, _⟩ <;> rintro (hr | hr | hr) <;> cases hr
    · rintro (hr | hr | hr) <;> cases hr
  cases e with
  | plain content => exact ⟨_, rfl, fun hr => absurd hr hlines⟩
  | tagged tag qualifiers content =>
    rcases hr : Tag.role? tag with _ | r
    · simp only [Element.IsSaid, hr] at h
    · by_cases hcode : r = .code
      · subst hcode
        exact ⟨_, congrArg (Option.map _) hr, fun hreplaced => absurd hreplaced hlines⟩
      · refine ⟨r, ?_, fun _ => hr⟩
        rw [Gathering.partOf?, hr, Option.map_some, if_neg hcode]
  | _ => exact h.elim

/-! ## The whole way -/

open Comment

instance : DecidablePred pairedLines.text := fun l =>
  inferInstanceAs (Decidable (fenceCount l % 2 = 0))

instance (t : Text) : Decidable (ProseIsPaired t) :=
  inferInstanceAs (Decidable (Along _ _ _))

/-- **Fences come in pairs.** In a comment without a fence, let each line say text with its fences
in pairs outside of code, and let every heading, label and name stand before text. Then the comment
is written with its fences in pairs, as a whole and in each of its parts and paragraphs: their
number is even, and the lines that open and close the blocks of its parts are written in order,
behind the marks of lists and quotes and nothing else. And so each block of code of the comment is
found in an element, and in what is written, if the element says it and is not replaced by a later
one. -/
theorem renderComment_pairs_fences (headings : Int) {t : Text} {es : List Element}
    (ht : ¬ fence <:+: t) (hes : elements t = .ok es) (hprose : ProseIsPaired t)
    (hbegin : (Documentation.ofElements es).BeginsWithText) :
    ∃ r, renderComment headings t = .ok r ∧
      (fenceCount r.text % 2 = 0 ∧
        WritesOutlines (Documentation.ofElements es).parts.flatten r.text) ∧
      List.Forall₂ (fun os block => fenceCount block % 2 = 0 ∧ WritesOutlines os block)
        (Documentation.ofElements es).parts (blocks headings (Documentation.ofElements es)) ∧
      (∀ os ∈ (Documentation.ofElements es).description, ∀ o ∈ os,
        fenceCount (paragraph o) % 2 = 0 ∧ Writes o.textLines (paragraph o)) ∧
      ∀ p : CodePassage (sourceLines t),
        (∃ before e after level, es = before ++ e :: after ∧ e.Holds pairedLines p.lines level) ∧
        ∀ before e after level, es = before ++ e :: after → e.Holds pairedLines p.lines level →
          e.IsKept level after → ShowsBlock p.lines r.text.lines := by
  obtain ⟨s, hs, -⟩ := exists_of_map_eq_ok ((elements_eq t).symm.trans hes)
  have hkeeps : KeepsFences pairedLines (sourceLines t) :=
    keepsFences_of_count (fenceCount_eq_zero_iff.2 ht) hprose
  have hall : ∀ e ∈ es, e.All (FencedText pairedLines) :=
    all_of_keepsFences pairedLines_ofReader hkeeps hes
  have hgathered : (Gathering.ofElements es).All (FencedText pairedLines) :=
    Gathering.all_ofElements (fun _ _ => FencedText.append_break) hall
  have hblocks : List.Forall₂ WritesOutlines (Documentation.ofElements es).parts
      (blocks headings (Documentation.ofElements es)) := forall₂_blocks hgathered hbegin headings
  have htext : WritesOutlines (Documentation.ofElements es).parts.flatten
      ((Documentation.ofElements es).toMarkdown headings) := writes_flatMap_breaks hblocks
  refine ⟨_, renderComment_of_elements hes headings, ?_,
    hblocks.imp fun os block hb => ⟨hb.isPaired.fenceCount_even, hb⟩, ?_, fun p => ⟨?_, ?_⟩⟩
  · dsimp only
    exact ⟨htext.isPaired.fenceCount_even, htext⟩
  · intro os hos o ho
    have hparagraph := writes_paragraph (forall_mem_of_part? hgathered.description hos o ho)
    exact ⟨hparagraph.isPaired.fenceCount_even, hparagraph⟩
  · exact exists_element_of_passage pairedLines_ofReader hkeeps p hes
  · rintro before e after level rfl he ⟨hsaid, hlast⟩
    have hb : IsCodeBlock pairedLines p.lines := p.isCodeBlock pairedLines_ofReader hkeeps hs
    obtain ⟨o, ho, hblock⟩ := hsaid.exists_said hb he
    obtain ⟨part, hpart, hrole⟩ := hsaid.exists_part (before.foldl Gathering.take {})
    have hkept := Gathering.exists_kept (fun f hf => hall f (List.mem_append_left _ hf)) hpart ho
      (fun hr => hlast part (hrole hr) hr) hb.isBlock hblock
    dsimp only
    exact htext.showsBlock hb hkept

/-- A block that an item begins with, below what is said about a parameter. -/
theorem renderComment_pairs_fences_in_item :
    ∃ r, renderComment 1 "@param x is:\n  - @code{.c}\nf()\n  @endcode".toList = .ok r ∧
      WritesOutlines [⟨"is:".toList, [.leaf "```c\nf()\n```".toList]⟩] r.text ∧
      ShowsBlock ["```c".toList, "f()".toList, "```".toList] r.text.lines := by
  let param : Outline := ⟨"x is:".toList, [.leaf "```c\nf()\n```".toList]⟩
  let p : CodePassage (sourceLines "@param x is:\n  - @code{.c}\nf()\n  @endcode".toList) :=
    { above := ["@param x is:".toList]
      opening := "  - @code{.c}".toList
      before := "-".toList
      opener := "@code{.c}".toList
      body := ["f()".toList]
      below := ["  @endcode".toList]
      lines_eq := by decide
      outside := by decide
      opens := by decide
      inside := by decide
      closes := by decide }
  have hes : elements "@param x is:\n  - @code{.c}\nf()\n  @endcode".toList =
      .ok [.tagged "param".toList [] param, .separator] := rfl
  have hfence : ¬ fence <:+: "@param x is:\n  - @code{.c}\nf()\n  @endcode".toList :=
    fenceCount_eq_zero_iff.1 (by decide)
  have hprose : ProseIsPaired "@param x is:\n  - @code{.c}\nf()\n  @endcode".toList := by
    decide +kernel
  have hdoc : Documentation.ofElements [.tagged "param".toList [] param, .separator] =
      { parameters := some [⟨"x".toList, none,
          some ⟨"is:".toList, [.leaf "```c\nf()\n```".toList]⟩⟩] } := rfl
  have hbegin :
      (Documentation.ofElements [.tagged "param".toList [] param, .separator]).BeginsWithText := by
    rw [hdoc]
    constructor
    · rintro o ⟨⟩
    · rintro d ⟨⟩
    · rintro os ⟨⟩
    · rintro ps ⟨⟩ p hp
      obtain rfl := List.mem_singleton.1 hp
      have hfirst : ∀ l ∈ some "is:".toList, HoldsPairs l := by decide
      exact ⟨by decide, by decide, fun o ho => Option.some.inj ho ▸ hfirst⟩
    · rintro vs ⟨⟩
    · rintro vs ⟨⟩
    · rintro o ⟨⟩
  have hparts : (Documentation.ofElements
      [.tagged "param".toList [] param, .separator]).parts.flatten =
      [⟨"is:".toList, [.leaf "```c\nf()\n```".toList]⟩] := by
    rw [hdoc]
    rfl
  have hlines : p.lines = ["```c".toList, "f()".toList, "```".toList] := by decide
  have hparam : param.Holds pairedLines p.lines 1 := by
    rw [hlines]
    exact .item (List.mem_singleton_self _) (.top (.nil false) (by decide :
      Text.lines "```c\nf()\n```".toList = [] ++ ["```c".toList, "f()".toList, "```".toList] ++ []))
  have hkept : (Element.tagged "param".toList [] param).IsKept 1 [.separator] := by
    refine ⟨⟨("x".toList, _), rfl, by decide⟩, ?_⟩
    rintro r - - f hf
    obtain rfl := List.mem_singleton.1 hf
    exact Option.some_ne_none r ∘ Eq.symm
  obtain ⟨r, hr, ⟨-, htext⟩, -, -, hpassages⟩ :=
    renderComment_pairs_fences 1 hfence hes hprose hbegin
  have hshown := (hpassages p).2 [] _ [.separator] 1 rfl ⟨param, rfl, hparam⟩ hkept
  rw [hparts] at htext
  rw [hlines] at hshown
  exact ⟨r, hr, htext, hshown⟩

/-- The name of a parameter before the fence that opens a block: the line does not begin with the
fence any more, although the comment is without fences. -/
theorem renderComment_displaces_fence :
    ∃ (p : CodePassage (sourceLines "@param x @code\nf()\n@endcode".toList)) (r : Rendering),
      p.body = ["f()".toList] ∧ ¬ fence <:+: "@param x @code\nf()\n@endcode".toList ∧
      renderComment 1 "@param x @code\nf()\n@endcode".toList = .ok r ∧
      "* `x` - ```".toList ∈ r.text.lines ∧
      ∀ q rest, IsContainerPrefix q → "* `x` - ```".toList ≠ q ++ (fence ++ rest) := by
  let p : CodePassage (sourceLines "@param x @code\nf()\n@endcode".toList) :=
    { above := []
      opening := "@param x @code".toList
      before := "@param x".toList
      opener := "@code".toList
      body := ["f()".toList]
      below := ["@endcode".toList]
      lines_eq := by decide
      outside := by decide
      opens := by decide
      inside := by decide
      closes := by decide }
  have hes : elements "@param x @code\nf()\n@endcode".toList =
      .ok [.tagged "param".toList [] (.leaf "x\n```\nf()\n```".toList), .separator] := rfl
  have htext : (Documentation.ofElements [.tagged "param".toList []
      (.leaf "x\n```\nf()\n```".toList), .separator]).toMarkdown 1 =
      "# Arguments\n\n* `x` - ```\n  f()\n  ```\n\n".toList := by decide +kernel
  refine ⟨p, _, rfl, fenceCount_eq_zero_iff.1 (by decide), renderComment_of_elements hes 1, ?_, ?_⟩
  · rw [htext]
    decide
  · rintro q rest hq h
    cases hq with
    | star hq => cases hq <;> simp [fence] at h
    | nil | space | dash | quote => simp [fence] at h

end DoxygenMarkdown

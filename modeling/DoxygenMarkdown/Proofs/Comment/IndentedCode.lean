import DoxygenMarkdown.Proofs.Comment.Attaching
import DoxygenMarkdown.Proofs.Comment.Verbatim
import DoxygenMarkdown.Proofs.Fences.Block

/-!
# Indented code is fenced where text would go

A block of code whose tag is indented belongs to the element above it. It is put into one node of
that, the one that text at the column of the tag would have gone on with, and it is all of it in
there: the fence, the lines without the indentation of the tag, and the fence again
(`readLines_indentedCode`). Whether the block is closed or the comment ends makes no difference.

* The node is found once, when the block opens. From then on the reader knows its depth, and every
  line of code changes the text of the node only, so that it stays where it is
  (`State.readLines_opens_indented`).
* Behind the block the text of the node ends with a fence, so text that goes on with it begins a new
  line.
-/

namespace DoxygenMarkdown

namespace Outline

/-- A node with a block of code below its text. Between two fences stands each line without its
first characters, as many as the tag is indented, if they are blank, and else without all blanks
in front. -/
def withCode (language : Text) (indent : Nat) (body : List Text) (o : Outline) : Outline :=
  { o with top := (if o.top.isEmpty then [] else o.top ++ ['\n']) ++ "```".toList ++ language ++
    (body.flatMap fun raw => '\n' ::
      if Text.allBlank (raw.take indent) then raw.drop indent else raw.trimStart) ++
    "\n```".toList }

theorem top_addLines (ls : List Text) (o : Outline) :
    (o.addLines ls).top = o.top ++ ls.flatMap ('\n' :: ·) := by
  induction ls generalizing o with
  | nil => exact (List.append_nil _).symm
  | cons l ls ih =>
    rw [addLines, List.foldl_cons, ← addLines, ih, addLine, List.flatMap_cons, List.append_assoc]

/-- The block is put into the node line by line. -/
theorem addLine_addLines_startLine (block : Comment.CodeBlock) (language : Text) (body : List Text)
    (o : Outline) :
    ((o.startLine ("```".toList ++ language)).addLines (body.map block.content)).addLine
      "```".toList = o.withCode language block.indent body := by
  have hsub : ((o.startLine ("```".toList ++ language)).addLines (body.map block.content)).sub =
      o.sub := by rw [sub_addLines, sub_startLine]
  have hstart : (o.startLine ("```".toList ++ language)).top =
      (if o.top.isEmpty then [] else o.top ++ ['\n']) ++ "```".toList ++ language := by
    rw [startLine]
    split
    · rfl
    · rw [addLine, List.append_assoc, List.append_assoc]
      rfl
  rw [addLine, hsub, top_addLines, hstart, withCode, List.flatMap_map]
  rfl

/-- Text behind a fence begins a new line. -/
theorem continueWith_of_fence {o : Outline} {x : Text} (h : o.top = x ++ "\n```".toList)
    (t : Text) :
    o.continueWith t = { o with top := o.top ++ '\n' :: t } := by
  have hne : ¬ o.top.isEmpty = true := by
    rw [h, List.isEmpty_iff]
    exact List.append_ne_nil_of_right_ne_nil x (List.cons_ne_nil _ _)
  have hend : o.top.endsWith "\n```".toList = true := by
    rw [h]
    exact Text.endsWith_append x _
  rw [continueWith, if_neg hne, if_pos hend]

end Outline

namespace Comment

/-- What opens a block of code does not depend on the blanks before it. -/
theorem openCode?_append_of_allBlank {b : Text} (h : b.allBlank = true) (t : Text) :
    openCode? (b ++ t) = openCode? t := by
  rw [openCode?, Text.words_append_of_allBlank h]
  rfl

namespace State

variable {e : Element} (es : List Element) {n : Nesting} {nodes : List Outline} {p : Outline}
  {column : Nat}

/-- The block that opens below an element, at some column. -/
def blockAt (n : Nesting) (column : Nat) : CodeBlock := ⟨(n.enter column).depth, column, false⟩

theorem modifyLast_within {code : Option CodeBlock} {depth : Nat} (hp : p.LiesAt depth nodes)
    (f : Outline → Outline) :
    modifyLast ⟨e.withContent (Outline.within nodes p) :: es, n, code⟩ depth f =
      ⟨e.withContent (Outline.within nodes (f p)) :: es, n, code⟩ := by
  rw [modifyLast_withContent, hp]

/-- A block of code whose tag is indented lies where the columns say, all of it in one node. -/
theorem readLines_opens_indented (htakes : e.takesLines = true) {raw opener : Text}
    (hcolumn : (dropStar raw).indentation = column) (hindent : column ≠ 0)
    (hopens : openCode? (dropStar raw) = some ([], opener)) {body : List Text}
    (hbody : ∀ l ∈ body, Marker.leads (dropStar l) Tag.endCode = false)
    (hp : Outline.LiesAt (n.enter column).depth nodes p) :
    readLines ⟨e.withContent (Outline.within nodes p) :: es, n, none⟩ (raw :: body) =
      .ok ⟨e.withContent (Outline.within nodes ((p.startLine (openingText opener)).addLines
        (body.map (blockAt n column).content))) :: es, n.enter column,
        some (blockAt n column)⟩ := by
  have htakes : takesLines ⟨e.withContent (Outline.within nodes p) :: es, n, none⟩ = true :=
    (e.takesLines_withContent _).trans htakes
  have henter : enter ⟨e.withContent (Outline.within nodes p) :: es, n, none⟩ column =
      ⟨e.withContent (Outline.within nodes p) :: es, n.enter column, none⟩ := rfl
  have hstep : step ⟨e.withContent (Outline.within nodes p) :: es, n, none⟩ raw =
      .ok ⟨e.withContent (Outline.within nodes (p.startLine (openingText opener))) :: es,
        n.enter column, some (blockAt n column)⟩ := by
    rw [step_of_opens rfl hopens, beginCode_of_indented ⟨hcolumn ▸ hindent, htakes⟩, hcolumn,
      henter,
      beginCodeAt, modifyLast_within es hp]
    rfl
  rw [readLines_cons_of_ok hstep, readLines_body rfl hbody]
  exact congrArg Except.ok (modifyLast_within es (hp.of_sub_eq (Outline.sub_startLine _ p)) _)

/-- The block is closed in the node that it lies in. -/
theorem closeCode_blockAt (hp : Outline.LiesAt (n.enter column).depth nodes p) :
    closeCode ⟨e.withContent (Outline.within nodes p) :: es, n.enter column,
      some (blockAt n column)⟩ (blockAt n column) =
      ⟨e.withContent (Outline.within nodes (p.addLine "```".toList)) :: es, n.enter column,
        none⟩ := by
  have hmodify : modifyLast ⟨e.withContent (Outline.within nodes p) :: es, n.enter column,
      some (blockAt n column)⟩ (blockAt n column).depth (Outline.addLine "```".toList) =
      ⟨e.withContent (Outline.within nodes (p.addLine "```".toList)) :: es, n.enter column,
        some (blockAt n column)⟩ := modifyLast_within es hp _
  rw [closeCode, hmodify]

end State

/-- **Indented code is fenced where text would go.** Outside code, below an element that takes
lines, a tag for code is indented. Then the block is put into the node that text at the same column
would have gone on with, and the columns are those that such text would have left open. Nothing
else changes, whether a line closes the block or the comment ends, and text that goes on with the
node later begins a new line. -/
theorem readLines_indentedCode {e : Element} {o : Outline} (htakes : e.takesLines = true)
    (ho : e.content? = some o) (es : List Element) (n : Nesting) (m : Marker)
    {language : Option Text} (hlanguage : ∀ l ∈ language, IsBraced l) {indent : Text}
    (hne : indent ≠ []) (hindent : ∀ c ∈ indent, isIndent c = true) {raw : Text}
    (hraw : dropStar raw = indent ++ openingLine m language) {body : List Text}
    (hbody : ∀ l ∈ body, Marker.leads (dropStar l) Tag.endCode = false) :
    ∃ nodes p n', o = Outline.within nodes p ∧
      (∀ l, IsContinuation l → (dropStar l).indentation = indent.length →
        (readIndented (dropStar l)).isItem = false →
        State.step ⟨e :: es, n, none⟩ l =
          .ok ⟨e.withContent (Outline.within nodes
            (p.continueWith (readIndented (dropStar l)).text)) :: es, n', none⟩) ∧
      let q := p.withCode ((language.map languageName).getD []) indent.length body
      (∀ last, Marker.leads (dropStar last) Tag.endCode = true →
        readLines ⟨e :: es, n, none⟩ (raw :: (body ++ [last])) =
          .ok ⟨e.withContent (Outline.within nodes q) :: es, n', none⟩) ∧
      State.finish <$> readLines ⟨e :: es, n, none⟩ (raw :: body) =
        .ok (es.reverse ++ [e.withContent (Outline.within nodes q), .separator]) ∧
      ∀ (r : Outline) (t : Text), r.top = q.top →
        r.continueWith t = { r with top := r.top ++ '\n' :: t } := by
  obtain ⟨nodes, p, rfl, hp⟩ := Outline.exists_liesAt (n.enter indent.length).depth o
  have hcolumn : (dropStar raw).indentation = indent.length := by
    rw [hraw, Text.indentation_append hindent]
    cases m <;> rfl
  have hopens : openCode? (dropStar raw) = some ([], openingLine m language) := by
    have hblank : indent.allBlank = true :=
      List.all_eq_true.2 fun c hc => isBlank_of_isIndent (hindent c hc)
    rw [hraw, openCode?_append_of_allBlank hblank, openCode?_openingLine m hlanguage]
  have htext : openingText (openingLine m language) =
      "```".toList ++ (language.map languageName).getD [] := by
    rw [openingText, readOpening_openingLine m hlanguage]
  have hself : e.withContent (Outline.within nodes p) = e := Element.withContent_eq_self ho
  have hread := State.readLines_opens_indented es htakes hcolumn
    (mt List.length_eq_zero_iff.1 hne) hopens hbody hp
  rw [hself, htext] at hread
  -- the end of the comment closes the block in the same node as a line does
  have hclose := State.closeCode_blockAt (e := e) es <| hp.of_sub_eq <|
    (Outline.sub_addLines (body.map (State.blockAt n indent.length).content) _).trans
      (Outline.sub_startLine ("```".toList ++ (language.map languageName).getD []) p)
  rw [Outline.addLine_addLines_startLine] at hclose
  refine ⟨nodes, p, n.enter indent.length, rfl, fun l hl hlcolumn hitem => ?_, fun last hlast => ?_,
    ?_, fun r t hr => Outline.continueWith_of_fence hr t⟩
  · have hstep := State.step_goOn htakes es hl (Outline.within nodes p, n)
    have hindent : (readIndented (dropStar l)).indent = indent.length := hlcolumn
    rwa [hself, goOn_within (hindent ▸ hp), if_neg (Bool.eq_false_iff.1 hitem), hindent] at hstep
  · rw [← List.cons_append, readLines_append_of_ok hread, readLines_cons, State.step_of_code rfl,
      if_pos hlast, State.endCode, hclose]
    rfl
  · rw [hread]
    refine congrArg Except.ok ?_
    rw [State.finish_of_code rfl, hclose, List.reverse_cons, List.append_assoc]
    rfl

/-- Code below an item, with lines that are indented more, less and not at all. -/
theorem readLines_indentedCode_in_item :
    (∃ nodes p n', ⟨"List:".toList, [.leaf "one".toList]⟩ = Outline.within nodes p ∧
      readLines ⟨[.plain ⟨"List:".toList, [.leaf "one".toList]⟩], ⟨[2]⟩, none⟩
        ("    @code{.rs}".toList ::
          (["     a".toList, " \tb".toList, "c".toList] ++ ["* @endcode".toList])) =
        .ok ⟨[.plain (Outline.within nodes (p.withCode "rs".toList 4
          ["     a".toList, " \tb".toList, "c".toList]))], n', none⟩) ∧
      readLines ⟨[.plain ⟨"List:".toList, [.leaf "one".toList]⟩], ⟨[2]⟩, none⟩
        ("    @code{.rs}".toList ::
          (["     a".toList, " \tb".toList, "c".toList] ++ ["* @endcode".toList])) =
        .ok ⟨[.plain ⟨"List:".toList, [.leaf "one\n```rs\n a\nb\nc\n```".toList]⟩], ⟨[4, 2]⟩,
          none⟩ := by
  have hlanguage : ∀ l ∈ some "rs".toList, IsBraced l := by decide
  have hraw : dropStar "    @code{.rs}".toList =
      "    ".toList ++ openingLine .atSign (some "rs".toList) := by decide
  have hbody : ∀ l ∈ ["     a".toList, " \tb".toList, "c".toList],
      Marker.leads (dropStar l) Tag.endCode = false := by decide
  obtain ⟨nodes, p, n', ho, -, hclosed, -⟩ := readLines_indentedCode
    (e := .plain ⟨"List:".toList, [.leaf "one".toList]⟩) rfl rfl [] ⟨[2]⟩ .atSign hlanguage
    (by decide) (by decide) hraw hbody
  exact ⟨⟨nodes, p, n', ho, hclosed "* @endcode".toList (by decide)⟩, rfl⟩

end Comment

end DoxygenMarkdown

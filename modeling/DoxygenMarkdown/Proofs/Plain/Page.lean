import DoxygenMarkdown.Proofs.Plain.Line

/-!
# Plain text passes unchanged

A comment of plain paragraphs is its own Markdown, up to the empty line that follows every part of a
documentation (`renderComment_pageText`). Its lines are plain, and a blank line stands between two
paragraphs. The stages on the way take it apart and put it together again:

* the lines of a paragraph are elements, and the blank line below them is one that separates
  (`Comment.elements_pageText`);
* those elements are gathered as one paragraph of the description, and nothing else is gathered
  (`Gathering.ofElements_pageElements`);
* a paragraph is written as it was read, and there is no other part to write
  (`Markdown.blocks_of_description`).

Each of them is an induction on the paragraphs, over the same elements (`pageElements`). The lines
of a paragraph come one by one. What carries that induction is the paragraph so far, which is never
empty, so every further line goes below it.
-/

namespace DoxygenMarkdown

/-- The words of some lines that are plain. There is at least one line. -/
structure IsPlainParagraph (p : List (List Text)) : Prop where
  ne_nil : p ≠ []
  isPlainLine : ∀ ws ∈ p, IsPlainLine ws

instance (p : List (List Text)) : Decidable (IsPlainParagraph p) :=
  decidable_of_iff (p ≠ [] ∧ ∀ ws ∈ p, IsPlainLine ws)
    ⟨fun ⟨hne, hp⟩ => ⟨hne, hp⟩, fun h => ⟨h.ne_nil, h.isPlainLine⟩⟩

/-- The lines of a paragraph, each made of its words. -/
def paragraphLines (p : List (List Text)) : List Text := p.map Text.unwords

/-- A paragraph as it is written. -/
def paragraphText (p : List (List Text)) : Text := Text.unlines (paragraphLines p)

/-- Paragraphs as they are written, with a blank line between them. -/
def pageText (ps : List (List (List Text))) : Text :=
  List.intercalate "\n\n".toList (ps.map paragraphText)

/-- The element that a plain line is read as. -/
def lineElement (ws : List Text) : Element := .plain (.leaf (Text.unwords ws))

/-- The elements that a plain paragraph is read as, with the one that separates below it. -/
def paragraphElements (p : List (List Text)) : List Element := p.map lineElement ++ [.separator]

/-- The elements that plain paragraphs are read as. -/
def pageElements (ps : List (List (List Text))) : List Element := ps.flatMap paragraphElements

/-- What plain paragraphs describe. -/
def pageDescription (ps : List (List (List Text))) : List Outline :=
  ps.map fun p => .leaf (paragraphText p)

variable {p : List (List Text)} {ps : List (List (List Text))}

theorem pageText_cons_cons (p q : List (List Text)) (ps : List (List (List Text))) :
    pageText (p :: q :: ps) = paragraphText p ++ "\n\n".toList ++ pageText (q :: ps) :=
  List.intercalate_cons_cons

theorem IsPlainParagraph.paragraphLines_ne_nil (h : IsPlainParagraph p) : paragraphLines p ≠ [] :=
  fun hp => h.ne_nil (List.map_eq_nil_iff.1 hp)

theorem IsPlainParagraph.break_notMem (h : IsPlainParagraph p) :
    ∀ l ∈ paragraphLines p, '\n' ∉ l := by
  intro l hl
  obtain ⟨ws, hws, rfl⟩ := List.mem_map.1 hl
  exact Text.break_notMem_unwords (h.isPlainLine ws hws).areWords

theorem IsPlainParagraph.getLast?_ne_return (h : IsPlainParagraph p) :
    ∀ l ∈ paragraphLines p, l.getLast? ≠ some '\r' := by
  intro l hl
  obtain ⟨ws, hws, rfl⟩ := List.mem_map.1 hl
  have hline := h.isPlainLine ws hws
  exact Text.getLast?_unwords_ne (by decide) hline.ne_nil hline.areWords

/-! ## Reading -/

namespace Comment

theorem sourceLines_paragraphText (h : IsPlainParagraph p) :
    sourceLines (paragraphText p) = paragraphLines p :=
  sourceLines_unlines h.paragraphLines_ne_nil h.break_notMem h.getLast?_ne_return

/-- Above the other paragraphs, the first one has its lines and a blank line below them. -/
theorem sourceLines_pageText_cons_cons (h : IsPlainParagraph p) (q : List (List Text))
    (ps : List (List (List Text))) :
    sourceLines (pageText (p :: q :: ps)) =
      (paragraphLines p ++ [[]]) ++ sourceLines (pageText (q :: ps)) := by
  have htext : pageText (p :: q :: ps) =
      Text.unlines ((paragraphLines p ++ [[]]) ++ [pageText (q :: ps)]) := by
    have hblank : Text.unlines ([[]] ++ [pageText (q :: ps)]) = '\n' :: pageText (q :: ps) := by
      rw [List.singleton_append, Text.unlines_cons (List.cons_ne_nil _ []), Text.unlines_singleton]
      rfl
    rw [pageText_cons_cons, List.append_assoc, List.append_assoc, paragraphText,
      Text.unlines_append h.paragraphLines_ne_nil (by simp), hblank]
    rfl
  rw [htext, sourceLines_unlines_concat, flatMap_sourceLines]
  · intro l hl
    rcases List.mem_append.1 hl with hl | hl
    · exact h.break_notMem l hl
    · rw [List.mem_singleton.1 hl]
      exact List.not_mem_nil
  · intro l hl
    rcases List.mem_append.1 hl with hl | hl
    · exact h.getLast?_ne_return l hl
    · rw [List.mem_singleton.1 hl]
      exact Option.some_ne_none _ |>.symm

/-- The lines of a paragraph become elements, one below the other. -/
theorem readLines_paragraphLines (h : ∀ ws ∈ p, IsPlainLine ws) (es : List Element) :
    readLines ⟨es, {}, none⟩ (paragraphLines p) =
      .ok ⟨(p.map lineElement).reverse ++ es, {}, none⟩ := by
  induction p generalizing es with
  | nil => rfl
  | cons ws p ih =>
    have hstep : State.step ⟨es, {}, none⟩ (Text.unwords ws) =
        .ok ⟨lineElement ws :: es, {}, none⟩ :=
      State.step_unwords (h ws List.mem_cons_self) rfl
    have ih := ih (fun vs hvs => h vs (List.mem_cons_of_mem _ hvs)) (lineElement ws :: es)
    rw [paragraphLines, List.map_cons, readLines_cons_of_ok hstep, List.map_cons,
      List.reverse_cons, List.append_assoc]
    exact ih

/-- **Plain paragraphs are read as their lines.** Below each of them stands an element that
separates. -/
theorem elements_pageText (hne : ps ≠ []) (h : ∀ p ∈ ps, IsPlainParagraph p) :
    elements (pageText ps) = .ok (pageElements ps) := by
  induction ps with
  | nil => exact absurd rfl hne
  | cons p ps ih =>
    have hp := h p List.mem_cons_self
    have hread := readLines_paragraphLines hp.isPlainLine []
    rw [List.append_nil] at hread
    cases ps with
    | nil =>
      -- the end of the comment separates where a blank line would
      have hstate : stateAfter (pageText [p]) = .ok ⟨(p.map lineElement).reverse, {}, none⟩ := by
        have htext : pageText [p] = paragraphText p := List.intercalate_singleton
        rw [stateAfter, htext, sourceLines_paragraphText hp]
        exact hread
      have hpage : pageElements [p] = paragraphElements p := List.flatMap_singleton _ p
      rw [elements_of_ok hstate, State.finish_of_code_eq_none rfl, List.reverse_reverse, hpage]
      rfl
    | cons q ps =>
      have hblank : readLines {} (paragraphLines p ++ [[]]) =
          .ok (State.push ⟨(p.map lineElement).reverse, {}, none⟩ .separator) := by
        rw [readLines_append_of_ok hread, readLines_cons_of_ok (State.step_nil rfl)]
        rfl
      rw [elements_of_settled (sourceLines_pageText_cons_cons hp q ps) hblank
        (State.settled_push_separator rfl),
        ih (List.cons_ne_nil q ps) fun r hr => h r (List.mem_cons_of_mem _ hr)]
      refine congrArg Except.ok ?_
      simp [State.push, pageElements, paragraphElements]

end Comment

/-! ## Gathering -/

namespace Gathering

/-- A line goes below a paragraph that has begun. -/
theorem joinParagraph_concat_leaf {t : Text} (ht : t ≠ []) (ds : List Outline) (l : Text) :
    joinParagraph (ds ++ [.leaf t]) (.leaf l) true = ds ++ [.leaf (t ++ '\n' :: l)] := by
  obtain ⟨c, t, rfl⟩ := List.exists_cons_of_ne_nil ht
  rw [joinParagraph, List.getLast?_concat, List.dropLast_concat]
  rfl

/-- A line that nothing can be joined to begins a paragraph. -/
theorem joinParagraph_false (ds : List Outline) (d : Outline) :
    joinParagraph ds d false = ds ++ [d] := by
  rw [joinParagraph]
  rcases ds.getLast? with _ | e <;> rfl

/-- The lines of a paragraph that has begun go below each other. -/
theorem foldl_take_lineElement (h : ∀ ws ∈ p, IsPlainLine ws) (ds : List Outline) {t : Text}
    (ht : t ≠ []) :
    (p.map lineElement).foldl take { description := ds ++ [.leaf t], joinable := true } =
      { description := ds ++ [.leaf (Text.unlines (t :: paragraphLines p))]
        joinable := true } := by
  -- on the lines that are left, for any text of the lines so far
  induction p generalizing t with
  | nil =>
    rw [paragraphLines, List.map_nil, List.map_nil, Text.unlines_singleton]
    rfl
  | cons ws p ih =>
    have hstep : take { description := ds ++ [.leaf t], joinable := true } (lineElement ws) =
        { description := ds ++ [.leaf (t ++ '\n' :: Text.unwords ws)], joinable := true } := by
      rw [lineElement, take, takeLine_unwords (h ws List.mem_cons_self) rfl,
        joinParagraph_concat_leaf ht]
    rw [List.map_cons, List.foldl_cons, hstep,
      ih (fun vs hvs => h vs (List.mem_cons_of_mem _ hvs)) (by simp), paragraphLines,
      paragraphLines, List.map_cons, Text.unlines_cons_cons]

/-- The lines of a paragraph and the blank line below it add it to the description. -/
theorem foldl_take_paragraph (h : IsPlainParagraph p) (ds : List Outline) :
    (paragraphElements p).foldl take { description := ds } =
      { description := ds ++ [.leaf (paragraphText p)] } := by
  rcases p with _ | ⟨ws, p⟩
  · exact absurd rfl h.ne_nil
  · have hws := h.isPlainLine ws List.mem_cons_self
    have hne : Text.unwords ws ≠ [] := by
      obtain ⟨c, t, ht, -⟩ := hws.exists_cons
      rw [ht]
      exact List.cons_ne_nil c t
    have hfirst : take { description := ds } (lineElement ws) =
        { description := ds ++ [.leaf (Text.unwords ws)], joinable := true } := by
      rw [lineElement, take, takeLine_unwords hws rfl, joinParagraph_false]
    have hlines : ((ws :: p).map lineElement).foldl take { description := ds } =
        { description := ds ++ [.leaf (paragraphText (ws :: p))], joinable := true } := by
      rw [List.map_cons, List.foldl_cons, hfirst]
      exact foldl_take_lineElement (fun vs hvs => h.isPlainLine vs (List.mem_cons_of_mem _ hvs))
        ds hne
    -- the blank line finds no buffer to close
    rw [paragraphElements, List.foldl_append, hlines]
    rfl

theorem foldl_take_pageElements (h : ∀ p ∈ ps, IsPlainParagraph p) (ds : List Outline) :
    (pageElements ps).foldl take { description := ds } =
      { description := ds ++ pageDescription ps } := by
  induction ps generalizing ds with
  | nil =>
    rw [pageDescription, List.map_nil, List.append_nil]
    rfl
  | cons p ps ih =>
    have ih := ih (fun q hq => h q (List.mem_cons_of_mem _ hq)) (ds ++ [.leaf (paragraphText p)])
    rw [List.append_assoc] at ih
    rw [pageElements, List.flatMap_cons, List.foldl_append,
      foldl_take_paragraph (h p List.mem_cons_self)]
    exact ih

/-- **Plain paragraphs are the description**, and there is nothing else to gather. -/
theorem ofElements_pageElements (h : ∀ p ∈ ps, IsPlainParagraph p) :
    ofElements (pageElements ps) = { description := pageDescription ps } := by
  have hfold : (pageElements ps).foldl take {} = { description := pageDescription ps } :=
    foldl_take_pageElements h []
  rw [ofElements, hfold]
  rfl

end Gathering

/-! ## Writing -/

theorem Outline.render_leaf (indent : Nat) (t : Text) : (leaf t).render indent = t := by
  cases t with
  | nil => rfl
  | cons c t => exact Text.unlines_singleton (c :: t)

namespace Markdown

/-- A plain paragraph is written as it was read. -/
theorem paragraph_paragraphText (h : IsPlainParagraph p) :
    paragraph (.leaf (paragraphText p)) = paragraphText p := by
  have hlines : Text.lines (paragraphText p) = paragraphLines p :=
    Text.lines_unlines h.paragraphLines_ne_nil h.break_notMem
  rw [paragraph, Outline.render_leaf, hlines, paragraphLines, dropPointers_unwords h.isPlainLine]
  rfl

/-- A documentation that is a description has one block. -/
theorem blocks_of_description (level : Int) {ds : List Outline} (hne : ds ≠ []) :
    blocks level (Gathering.documentation { description := ds }) =
      [List.intercalate "\n\n".toList (ds.map paragraph)] := by
  rcases ds with _ | ⟨d, ds⟩
  · exact absurd rfl hne
  · rfl

end Markdown

/-! ## The whole way -/

/-- **Plain text passes unchanged.** Paragraphs of plain lines, with a blank line between them, are
read without an error, lose nothing, and are written as they are, whatever the level of headings.
Only the empty line below every part of a documentation is added. -/
theorem renderComment_pageText (level : Int) (hne : ps ≠ [])
    (h : ∀ p ∈ ps, IsPlainParagraph p) :
    renderComment level (pageText ps) = .ok ⟨pageText ps ++ "\n\n".toList, []⟩ := by
  have hmap : (pageDescription ps).map Markdown.paragraph = ps.map paragraphText := by
    rw [pageDescription, List.map_map]
    exact List.map_congr_left fun p hp => Markdown.paragraph_paragraphText (h p hp)
  have hds : pageDescription ps ≠ [] := fun hps => hne (List.map_eq_nil_iff.1 hps)
  have hmarkdown : (Gathering.ofElements (pageElements ps)).documentation.toMarkdown level =
      pageText ps ++ "\n\n".toList := by
    rw [Gathering.ofElements_pageElements h, Documentation.toMarkdown,
      Markdown.blocks_of_description level hds, hmap, List.flatMap_singleton]
    rfl
  have hnotices : (Gathering.ofElements (pageElements ps)).notices = [] := by
    rw [Gathering.ofElements_pageElements h]
  simp only [renderComment, Comment.elements_pageText hne h, hmarkdown, hnotices]

/-- A fence that nothing closes, a sign that would point back at the start of a line, and a marker
in the middle of a word are plain text. -/
theorem renderComment_pageText_fence :
    renderComment 3
        (pageText
          [[["a".toList, "<".toList, "b".toList], ["```".toList]],
            [["me@host.org".toList, "*/".toList], ["-".toList, "{x}".toList]]]) =
      .ok ⟨"a < b\n```\n\nme@host.org */\n- {x}\n\n".toList, []⟩ :=
  (renderComment_pageText 3 (by decide) (by decide)).trans rfl

end DoxygenMarkdown

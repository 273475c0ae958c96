import DoxygenMarkdown.Proofs.Site.FencedBlock
import DoxygenMarkdown.Proofs.Site.Step
import DoxygenMarkdown.Proofs.Text.Infix

/-!
# Fenced blocks are replaced in place

A page is written from parts, one below the other: lines that hold neither a fence nor the mark of a
directive, and comments in fenced blocks (`Part.text`). Rendering it replaces each block by what its
comment says, indented as the block was, or leaves the block alone if the comment cannot be read
(`Part.shown`), and changes nothing else: **`render_parts`**. What a part shows depends on that part
only, and the indentation of a block is added to every line of its rendering and does nothing more.

The first pass is followed part by part (`tells_line`, `tells_block`). The second one finds no
directive, as the mark of one cannot come up where parts meet (`not_infix_shown`).
-/

namespace DoxygenMarkdown.Site

open Text (EndsLine)

variable {settings : Settings}

/-! ## What parts are written and shown as -/

/-- What a block is replaced by. -/
def CommentBlock.shown (settings : Settings) (b : CommentBlock) : Text :=
  match renderComment settings.headingLevel.toInt (b.comment ++ ['\n']) with
  | .ok rendering => FencedBlock.indentLines b.indent rendering.text.trimEndBreaks
  | .error _ => b.text settings.fence

/-- What is reported about a block in a page with some name. -/
def CommentBlock.events (settings : Settings) (place : Text) (b : CommentBlock) : List Event :=
  match renderComment settings.headingLevel.toInt (b.comment ++ ['\n']) with
  | .ok rendering => rendering.notices.map .leftOut
  | .error e => [.unreadable place e]

/-- A block that can be found, and neither asks for a directive nor is replaced by one. -/
structure CommentBlock.IsReplaceable (settings : Settings) (b : CommentBlock) : Prop where
  wellFormed : b.IsWellFormed
  comment : ¬ Directive.mark <:+: b.comment
  rendering : ∀ r, renderComment settings.headingLevel.toInt (b.comment ++ ['\n']) = .ok r →
    ¬ Directive.mark <:+: r.text

/-- A line that no pass of the rendering changes. -/
structure IsInertLine (l : Text) : Prop where
  line : '\n' ∉ l
  fence : ¬ FencedBlock.fence <:+: l
  mark : ¬ Directive.mark <:+: l

namespace Part

/-- A part as it is written in a page. -/
def text (label : Text) : Part CommentBlock → Text
  | .line l => l
  | .block b => b.text label

/-- A part as it is shown. -/
def shown (settings : Settings) : Part CommentBlock → Text
  | .line l => l
  | .block b => b.shown settings

/-- What is reported about a part. -/
def events (settings : Settings) (place : Text) : Part CommentBlock → List Event
  | .line _ => []
  | .block b => b.events settings place

/-- A part that is replaced as a whole or stays as it is. -/
def IsReplaceable (settings : Settings) : Part CommentBlock → Prop
  | .line l => IsInertLine l
  | .block b => b.IsReplaceable settings

end Part

/-! ## The first pass -/

section Blocks

variable {page : Page} {label rest ending t : Text} {es : List Event}

theorem find?_eq_none (hlabel : '\n' ∉ label) {l : Text} (h : ¬ FencedBlock.fence <:+: l)
    (ls : List Text) : FencedBlock.find? label (l :: ls) = none := by
  have hopening : FencedBlock.opening? label [l] = none := by
    rw [FencedBlock.opening?, List.flatten_singleton, Text.after?_dropWhile_eq_none h]
  rw [FencedBlock.find?_cons hlabel, hopening]

/-- A line stays as it is. -/
theorem tells_line (hlabel : '\n' ∉ settings.fence) {l : Text} (hl : IsInertLine l)
    (hend : EndsLine ending rest) (hrest : Tells (replaceBlocks settings page rest) (.ok t) es) :
    Tells (replaceBlocks settings page (l ++ (ending ++ rest))) (.ok (l ++ (ending ++ t))) es := by
  by_cases hne : l ++ ending = []
  · -- the last line of the page is empty, so there is no such line
    obtain ⟨rfl, rfl⟩ := List.append_eq_nil_iff.1 hne
    exact hrest
  · have hfence : ¬ FencedBlock.fence <:+: l ++ ending := fun h =>
      hl.fence (hend.infix_of_infix_append (by decide) h)
    rw [replaceBlocks, Text.fullLines_append hl.line hne hend,
      cut_of_none (find?_eq_none hlabel hfence _), ← List.append_assoc]
    exact hrest.bind_pure rfl

theorem tells_replaceBlock (hstrict : settings.strict = false) {b : CommentBlock}
    (hb : b.IsWellFormed) (hend : EndsLine ending rest) (page : Page) :
    Tells (replaceBlock settings page (b.found settings.fence ending))
      (.ok (b.shown settings ++ ending)) (b.events settings page.name) := by
  -- blocks are rendered at level zero, which stands for the level of the site
  have hlevel : settings.levelFrom 0 = settings.headingLevel.toInt := if_pos rfl
  rw [replaceBlock, CommentBlock.shown, CommentBlock.events, hb.comment_found,
    hb.lineBreak_closing hend, hb.source_found settings.fence hend, ← hlevel]
  cases h : renderComment (settings.levelFrom 0) (b.comment ++ ['\n']) with
  | ok r => exact (tells_renderAt_of_ok h page.name).bind_pure rfl
  | error e => exact (tells_renderAt_of_error hstrict h page.name).bind_pure rfl

/-- A block is replaced by what it shows. -/
theorem tells_block (hstrict : settings.strict = false) (hlabel : '\n' ∉ settings.fence)
    {b : CommentBlock} (hb : b.IsWellFormed) (hend : EndsLine ending rest)
    (hrest : Tells (replaceBlocks settings page rest) (.ok t) es) :
    Tells (replaceBlocks settings page (b.text settings.fence ++ (ending ++ rest)))
      (.ok (b.shown settings ++ (ending ++ t))) (b.events settings page.name ++ es) := by
  rw [replaceBlocks, hb.cut_text hlabel hend, ← List.append_assoc]
  exact (tells_replaceBlock hstrict hb hend page).bind (hrest.bind_pure rfl)

theorem tells_part (hstrict : settings.strict = false) (hlabel : '\n' ∉ settings.fence)
    {part : Part CommentBlock} (hpart : part.IsReplaceable settings) (hend : EndsLine ending rest)
    (hrest : Tells (replaceBlocks settings page rest) (.ok t) es) :
    Tells (replaceBlocks settings page (part.text settings.fence ++ (ending ++ rest)))
      (.ok (part.shown settings ++ (ending ++ t))) (part.events settings page.name ++ es) := by
  cases part with
  | line l => exact tells_line hlabel hpart hend hrest
  | block b => exact tells_block hstrict hlabel hpart.wellFormed hend hrest

/-- All blocks of a page are replaced, each on its own. -/
theorem tells_replaceBlocks (hstrict : settings.strict = false) (hlabel : '\n' ∉ settings.fence)
    {parts : List (Part CommentBlock)} (hparts : ∀ part ∈ parts, part.IsReplaceable settings)
    (page : Page) :
    Tells (replaceBlocks settings page (Text.unlines (parts.map (Part.text settings.fence))))
      (.ok (Text.unlines (parts.map (Part.shown settings))))
      (parts.flatMap (Part.events settings page.name)) := by
  induction parts with
  | nil => exact tells_pure []
  | cons part parts ih =>
    rw [List.forall_mem_cons] at hparts
    -- the last part ends where the page ends, every other one at a line feed
    rcases parts with _ | ⟨next, parts⟩
    · have hnil : Tells (replaceBlocks settings page []) (.ok []) [] := tells_pure []
      have h := tells_part hstrict hlabel hparts.1 .endOfText hnil
      simpa using h
    · have h := tells_part hstrict hlabel hparts.1 (.lineFeed _) (ih hparts.2)
      have hcons (f : Part CommentBlock → Text) : Text.unlines ((part :: next :: parts).map f) =
          f part ++ '\n' :: Text.unlines ((next :: parts).map f) :=
        Text.unlines_cons (List.cons_ne_nil _ _) _
      rw [hcons, hcons]
      exact h

end Blocks

/-! ## The second pass -/

theorem directive_find?_eq_none {l : Text} (h : ¬ Directive.mark <:+: l) (ls : List Text) :
    Directive.find? (l :: ls) = none := by
  have hopening : Directive.opening? l = none := by
    rw [Directive.opening?, Text.after?_dropWhile_eq_none h]
    rfl
  rw [Directive.find?, hopening]

theorem tells_lines (files : Files) (site : Site) (page : Page) {ls : List Text}
    (h : ∀ l ∈ ls, ¬ Directive.mark <:+: l) :
    Tells (assemble (replaceDirective files site page) (cut Directive.find? 0 ls))
      (.ok ls.flatten) [] := by
  induction ls with
  | nil => exact tells_pure []
  | cons l ls ih =>
    rw [List.forall_mem_cons] at h
    rw [cut_of_none (directive_find?_eq_none h.1 ls), List.flatten_cons]
    exact (ih h.2).bind_pure rfl

/-- A text without the mark of a directive is left alone. -/
theorem tells_replaceDirectives (files : Files) (site : Site) (page : Page) {t : Text}
    (h : ¬ Directive.mark <:+: t) :
    Tells (replaceDirectives files site page t) (.ok t) [] := by
  have hlines : ∀ l ∈ t.fullLines, ¬ Directive.mark <:+: l := fun l hl hmark =>
    h (hmark.trans (Text.infix_of_mem_fullLines hl))
  have htells := tells_lines files site page hlines
  rwa [Text.flatten_fullLines] at htells

theorem notMem_of_isIndent {indent : Text} (h : ∀ c ∈ indent, isIndent c = true) : ':' ∉ indent :=
  fun hcolon => absurd (h _ hcolon) (by decide)

/-- The mark of a directive does not come up where lines are indented. -/
theorem mark_of_mark_indentLines {indent t : Text} (hindent : ∀ c ∈ indent, isIndent c = true)
    (h : Directive.mark <:+: FencedBlock.indentLines indent t) : Directive.mark <:+: t := by
  obtain ⟨l, hl, hmark⟩ := Text.exists_infix_of_infix_unlines (by decide) (by decide) h
  obtain ⟨k, hk, rfl⟩ := List.mem_map.1 hl
  refine List.IsInfix.trans ?_ (Text.infix_of_mem_lines hk)
  split at hmark
  · exact hmark
  · exact Text.infix_of_infix_append (by simp [Directive.mark, notMem_of_isIndent hindent]) hmark

/-- A block holds the mark of a directive in its comment only. -/
theorem not_mark_text {b : CommentBlock} (hb : b.IsReplaceable settings) {label : Text}
    (hlabel : ':' ∉ label) : ¬ Directive.mark <:+: b.text label := by
  intro h
  have hindent : ':' ∉ b.indent := notMem_of_isIndent hb.wellFormed.indent
  have hfence : ':' ∉ FencedBlock.fence := by decide
  have hcolon {l : Text} (hl : ':' ∉ l) : ¬ Directive.mark <:+: l := fun h =>
    hl (h.subset (by decide))
  -- the mark lies in the opening line, among the lines of the comment or in the closing line
  obtain ⟨l, hl, h⟩ := Text.exists_infix_of_infix_unlines (by decide) (by decide) h
  simp only [List.mem_cons, List.not_mem_nil, or_false] at hl
  rcases hl with rfl | rfl | rfl
  · exact hcolon (by simp [CommentBlock.opening, hindent, hfence, hlabel]) h
  · exact hb.comment (mark_of_mark_indentLines hb.wellFormed.indent h)
  · exact hcolon (by simp [CommentBlock.closing, hindent, hfence]) h

theorem not_mark_shown (hlabel : ':' ∉ settings.fence) {part : Part CommentBlock}
    (hpart : part.IsReplaceable settings) : ¬ Directive.mark <:+: part.shown settings := by
  cases part with
  | line l => exact hpart.mark
  | block b =>
    rw [Part.shown, CommentBlock.shown]
    cases hr : renderComment settings.headingLevel.toInt (b.comment ++ ['\n']) with
    | error e => exact not_mark_text hpart hlabel
    | ok r =>
      intro h
      have htrimmed := mark_of_mark_indentLines hpart.wellFormed.indent h
      exact hpart.rendering r hr (htrimmed.trans (Text.prefix_dropEndWhile _ r.text).isInfix)

/-! ## The whole page -/

/-- **Blocks are replaced in place.** In a page of parts, with a label that is one line and has no
colon in it, every block that can be rendered is replaced by its rendering, indented as the block
was, and everything else stays as it was. The site stays the same, and no file is read. -/
theorem render_parts (tree : FileTree) {site : Site} {page : Page}
    {parts : List (Part CommentBlock)}
    (hpage : page.markdown = Text.unlines (parts.map (Part.text site.settings.fence)))
    (hstrict : site.settings.strict = false) (hbreak : '\n' ∉ site.settings.fence)
    (hcolon : ':' ∉ site.settings.fence)
    (hparts : ∀ part ∈ parts, part.IsReplaceable site.settings) :
    render tree site page =
      { result := .ok (Text.unlines (parts.map (Part.shown site.settings)))
        site := site
        readings := []
        events := parts.flatMap (Part.events site.settings page.name) } := by
  have hmark : ¬ Directive.mark <:+: Text.unlines (parts.map (Part.shown site.settings)) := by
    intro h
    obtain ⟨t, ht, h⟩ := Text.exists_infix_of_infix_unlines (by decide) (by decide) h
    obtain ⟨part, hpart, rfl⟩ := List.mem_map.1 ht
    exact not_mark_shown hcolon (hparts part hpart) h
  have hblocks := tells_replaceBlocks hstrict hbreak hparts page
  have hall := hblocks.bind (tells_replaceDirectives tree.read site page hmark)
  rw [← hpage, List.append_nil] at hall
  exact renderWith_of_exec (hall { cache := site.cache })

/-- A block that is indented by a tab, and one that cannot be read. -/
theorem render_parts_nested :
    (render {} {} {
        markdown := ("- item\n\n\t```doxygen\n\t@brief Nested\n\n\t@note ```\n\t```\n" ++
          "```doxygen\n@param[bogus] x\n```\nafter\n").toList
        path := "index.md".toList }).result =
      .ok ("- item\n\n\tNested\n\n\t# Notes\n\n\t* ```\n" ++
        "```doxygen\n@param[bogus] x\n```\nafter\n").toList := by
  let site : Site := {}
  let page : Page := {
    markdown := ("- item\n\n\t```doxygen\n\t@brief Nested\n\n\t@note ```\n\t```\n" ++
      "```doxygen\n@param[bogus] x\n```\nafter\n").toList
    path := "index.md".toList }
  let nested : CommentBlock := ⟨['\t'], "@brief Nested\n\n@note ```".toList⟩
  let unreadable : CommentBlock := ⟨[], "@param[bogus] x".toList⟩
  let parts : List (Part CommentBlock) := [.line "- item".toList, .line [], .block nested,
    .block unreadable, .line "after".toList, .line []]
  have hnested : renderComment 1 (nested.comment ++ ['\n']) =
      .ok ⟨"Nested\n\n# Notes\n\n* ```\n\n".toList, []⟩ := rfl
  have hunreadable : renderComment 1 (unreadable.comment ++ ['\n']) =
      .error ⟨"bogus]".toList, none⟩ := rfl
  have hparts : ∀ part ∈ parts, part.IsReplaceable site.settings := by
    have hempty : IsInertLine [] := ⟨by decide, by decide, by decide⟩
    intro part hpart
    simp only [parts, List.mem_cons, List.not_mem_nil, or_false] at hpart
    rcases hpart with rfl | rfl | rfl | rfl | rfl | rfl
    · exact ⟨by decide, by decide +kernel, by decide +kernel⟩
    · exact hempty
    · refine ⟨⟨by decide, by decide⟩, by decide +kernel, fun r hr => ?_⟩
      obtain rfl : _ = r := Except.ok.inj (hnested.symm.trans hr)
      decide +kernel
    · refine ⟨⟨by decide, by decide⟩, by decide +kernel, fun r hr => ?_⟩
      exact nomatch hunreadable.symm.trans hr
    · exact ⟨by decide, by decide +kernel, by decide +kernel⟩
    · exact hempty
  have hpage : page.markdown = Text.unlines (parts.map (Part.text site.settings.fence)) := by
    decide +kernel
  have hshown : Text.unlines (parts.map (Part.shown site.settings)) =
      ("- item\n\n\tNested\n\n\t# Notes\n\n\t* ```\n" ++
        "```doxygen\n@param[bogus] x\n```\nafter\n").toList := by
    decide +kernel
  have hrender := render_parts {} hpage rfl (by decide) (by decide) hparts
  rw [hshown] at hrender
  exact congrArg Rendered.result hrender

end DoxygenMarkdown.Site

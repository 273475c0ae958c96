import DoxygenMarkdown.Proofs.Sections.Paragraphs
import DoxygenMarkdown.Proofs.Sections.Separator

/-!
# Code is a paragraph of its own

A block of code is put below the paragraphs that are there, and no line before it is joined to it.
It stays as it is, with one exception: while a buffer is open, a line right behind the block goes on
with the last paragraph of the buffer, and that is the block (`Documentation.ofElements_code_iff`).

* Outside of a buffer there is nothing to show. Code makes the next line begin a paragraph, and from
  there on everything is gathered as if nothing stood before it
  (`Gathering.exists_paragraphs_foldl_take`).
* In a buffer, the block is followed on its way (`Gathering.endsUp_foldl_take`) until the buffer is
  closed. As soon as there is another paragraph behind it, or it has items, no line can reach it.
-/

namespace DoxygenMarkdown

/-- The part that an open buffer goes to after some elements. -/
def routeAfter (es : List Element) : Option Destination := es.foldl Element.routeAfter none

/-- A line that says something follows, and nothing before it closes the buffer or goes there. -/
def LineFollows : List Element → Prop
  | [] | .separator :: _ => False
  | .plain content :: es => ¬ (content.isEmpty || isDecoration content) = true ∨ LineFollows es
  | .tagged tag _ _ :: es =>
    (tag ≠ "details".toList ∧ tag ≠ "todo".toList ∧ tag ≠ "code".toList) ∧ LineFollows es
  | .groupOpen :: es | .groupClose :: es | .bareMarker :: es => LineFollows es

/-- What has become of a paragraph behind some others: it is the same if it is kept, and otherwise
there is more text in it. -/
def EndsUp (earlier : List Outline) (p : Outline) (kept : Prop) (os : List Outline) : Prop :=
  ∃ p' later, os = earlier ++ p' :: later ∧ (kept → p' = p) ∧
    (¬ kept → p.top.length < p'.top.length)

theorem endsUp_of_kept {kept : Prop} (h : kept) (earlier : List Outline) (p : Outline)
    (later : List Outline) : EndsUp earlier p kept (earlier ++ p :: later) :=
  ⟨p, later, rfl, fun _ => rfl, fun hnot => absurd h hnot⟩

theorem EndsUp.congr {kept kept' : Prop} {earlier os : List Outline} {p : Outline}
    (h : EndsUp earlier p kept os) (hkept : kept ↔ kept') : EndsUp earlier p kept' os :=
  propext hkept ▸ h

/-- A paragraph that other text was joined to is not kept, whatever becomes of it then. -/
theorem EndsUp.of_joined {kept kept' : Prop} {earlier os : List Outline} {p p' : Outline}
    (h : EndsUp earlier p' kept' os) (hlonger : p.top.length < p'.top.length) (hnot : ¬ kept) :
    EndsUp earlier p kept os := by
  obtain ⟨q, later, hos, hsame, hmore⟩ := h
  refine ⟨q, later, hos, fun hkept => absurd hkept hnot, fun _ => ?_⟩
  by_cases hkept : kept'
  · rwa [hsame hkept]
  · exact hlonger.trans (hmore hkept)

/-- A line that is put below a text makes it longer. -/
theorem length_top_lt_startLine {p : Outline} (hp : p.isEmpty = false) (hsub : p.sub = [])
    (t : Text) : p.top.length < (p.startLine t).top.length := by
  have htop : p.top.isEmpty = false := by simpa [Outline.isEmpty, hsub] using hp
  rw [Outline.startLine, htop]
  simp [Outline.addLine]

theorem joinParagraph_concat_leaf_top {p : Outline} (hsub : p.sub = []) (ps : List Outline)
    (content : Outline) : joinParagraph (ps ++ [p]) content true =
      ps ++ [{ p.startLine content.top with sub := content.sub }] := by
  simp [joinParagraph, hsub]

theorem joinParagraph_concat_items {p : Outline} (hsub : p.sub ≠ []) (ps : List Outline)
    (content : Outline) : joinParagraph (ps ++ [p]) content true = ps ++ p :: [content] := by
  simp [joinParagraph, hsub]

namespace Gathering

variable {d : Destination} {g : Gathering} {p : Outline} {before later : List Outline}

theorem route_foldl_take (es : List Element) (g : Gathering) :
    (es.foldl take g).route = es.foldl Element.routeAfter g.route := by
  induction es generalizing g with
  | nil => rfl
  | cons e es ih => rw [List.foldl_cons, List.foldl_cons, ih, route_take]

/-! ## Outside of a buffer -/

theorem paragraphs_append (before g : Gathering) (d : Destination) :
    (before.append g).paragraphs d = before.paragraphs d ++ g.paragraphs d := by
  cases d <;> rfl

/-- If the next line begins a paragraph, then the paragraphs that are there stay as they are. -/
theorem exists_paragraphs_foldl_take (hj : g.joinable = false) (es : List Element)
    (d : Destination) :
    ∃ later, (es.foldl take g).closeBuffer.paragraphs d = g.paragraphs d ++ later := by
  have hg : Gathering.append { g with buffer := none } { buffer := g.buffer } = g := by
    obtain ⟨_, _, _, _, _, _, _, _, _, _, _, _, _, _, _⟩ := g
    obtain rfl : _ = false := hj
    simp [append]
  have hown : JoinsOwn { buffer := g.buffer } := joinsOwn_of_joinable rfl
  refine ⟨(es.foldl take { buffer := g.buffer }).closeBuffer.paragraphs d, ?_⟩
  rw [← hg, foldl_take_append hown, closeBuffer_append, paragraphs_append, hg]
  cases d <;> rfl

/-! ## In a buffer -/

theorem paragraphs_closeBuffer_held (hp : p.isEmpty = false)
    (hb : g.buffer = some ⟨d, before ++ p :: later⟩) :
    g.closeBuffer.paragraphs d =
      (g.paragraphs d ++ before.filter (!·.isEmpty)) ++ p :: later.filter (!·.isEmpty) := by
  rw [paragraphs_closeBuffer, buffered, hb]
  simp [hp]

/-- Once the buffer was closed, its paragraphs stay as they are. -/
theorem endsUp_of_closed (hp : p.isEmpty = false)
    (hb : g.buffer = some ⟨d, before ++ p :: later⟩) {h : Gathering} (hj : h.joinable = false)
    (hparagraphs : h.paragraphs d = g.closeBuffer.paragraphs d) {kept : Prop} (hkept : kept)
    (es : List Element) :
    EndsUp (g.paragraphs d ++ before.filter (!·.isEmpty)) p kept
      ((es.foldl take h).closeBuffer.paragraphs d) := by
  obtain ⟨more, hmore⟩ := exists_paragraphs_foldl_take hj es d
  rw [hmore, hparagraphs, paragraphs_closeBuffer_held hp hb, List.append_assoc, List.cons_append]
  exact endsUp_of_kept hkept _ p _

theorem endsUp_of_opened (hp : p.isEmpty = false)
    (hb : g.buffer = some ⟨d, before ++ p :: later⟩) {kept : Prop} (hkept : kept)
    (d' : Destination) (content : Outline) (es : List Element) :
    EndsUp (g.paragraphs d ++ before.filter (!·.isEmpty)) p kept
      ((es.foldl take
        (Gathering.openBuffer { g with joinable := false } d' content)).closeBuffer.paragraphs
          d) := by
  refine endsUp_of_closed hp hb (joinable_closeBuffer _) ?_ hkept es
  rw [paragraphs_openBuffer, paragraphs_closeBuffer, paragraphs_closeBuffer]
  cases d <;> rfl

/-- A line that says something is joined to a paragraph in the buffer if that is the last one and
has no items. Otherwise it leaves the paragraph alone, and there is another one behind it. -/
theorem takeLine_held (hp : p.isEmpty = false) (hb : g.buffer = some ⟨d, before ++ p :: later⟩)
    {content : Outline} (hsilent : ¬ (content.isEmpty || isDecoration content) = true) :
    (later = [] ∧ p.sub = [] ∧ ∃ p', p.top.length < p'.top.length ∧
      (g.takeLine content).buffer = some ⟨d, before ++ p' :: []⟩) ∨
    ((later ≠ [] ∨ p.sub ≠ []) ∧ ∃ later', later' ≠ [] ∧
      (g.takeLine content).buffer = some ⟨d, before ++ p :: later'⟩) := by
  rw [takeLine_of_some hsilent hb]
  by_cases hlater : later = []
  · subst hlater
    by_cases hsub : p.sub = []
    · refine .inl ⟨rfl, hsub, { p.startLine content.top with sub := content.sub },
        length_top_lt_startLine hp hsub content.top, ?_⟩
      rw [joinParagraph_concat_leaf_top hsub]
    · refine .inr ⟨.inr hsub, [content], List.cons_ne_nil content [], ?_⟩
      rw [joinParagraph_concat_items hsub]
  · have hjoin : joinParagraph (before ++ p :: later) content true =
        before ++ p :: joinParagraph later content true := by
      rw [List.append_cons, joinParagraph_append fun _ => hlater, List.append_assoc]
      rfl
    refine .inr ⟨.inl hlater, joinParagraph later content true, joinParagraph_ne_nil _ _ _, ?_⟩
    rw [hjoin]

theorem paragraphs_takeLine_of_some {b : Buffer} (hb : g.buffer = some b) (content : Outline)
    (d : Destination) : (g.takeLine content).paragraphs d = g.paragraphs d := by
  by_cases hsilent : (content.isEmpty || isDecoration content) = true
  · rw [takeLine, if_pos hsilent]
  · rw [takeLine_of_some hsilent hb]
    exact paragraphs_setBuffer g _ g.joinable d

theorem isEmpty_eq_false_of_lt {o : Outline} {n : Nat} (h : n < o.top.length) :
    o.isEmpty = false := by
  have htop : o.top ≠ [] := List.ne_nil_of_length_pos (Nat.zero_lt_of_lt h)
  rw [Outline.isEmpty, Bool.and_eq_false_iff]
  exact .inl (List.isEmpty_eq_false_iff.2 htop)

/-- **What becomes of a paragraph in the buffer**, whatever follows. The induction is on what
follows, for every paragraph, as one that text was joined to is followed from there. -/
theorem endsUp_foldl_take (hp : p.isEmpty = false)
    (hb : g.buffer = some ⟨d, before ++ p :: later⟩) (es : List Element) :
    EndsUp (g.paragraphs d ++ before.filter (!·.isEmpty)) p
      (later ≠ [] ∨ p.sub ≠ [] ∨ ¬ LineFollows es)
      ((es.foldl take g).closeBuffer.paragraphs d) := by
  induction es generalizing g p later with
  | nil =>
    rw [List.foldl_nil, paragraphs_closeBuffer_held hp hb]
    exact endsUp_of_kept (.inr (.inr id)) _ p _
  | cons e es ih =>
    -- another paragraph behind this one keeps it from then on
    have hbehind : ∀ {h : Gathering} {later' : List Outline} {kept : Prop},
        h.buffer = some ⟨d, before ++ p :: later'⟩ → h.paragraphs d = g.paragraphs d →
        later' ≠ [] → kept → EndsUp (g.paragraphs d ++ before.filter (!·.isEmpty)) p kept
          ((es.foldl take h).closeBuffer.paragraphs d) := by
      intro h later' kept hh hparagraphs hlater hkept
      rw [← hparagraphs]
      exact (ih hp hh).congr (iff_of_true (.inl hlater) hkept)
    rw [List.foldl_cons]
    cases e with
    | groupOpen | groupClose | bareMarker => exact ih hp hb
    | separator =>
      have hparagraphs : (g.take .separator).paragraphs d = g.closeBuffer.paragraphs d := by
        cases d <;> rfl
      exact endsUp_of_closed hp hb rfl hparagraphs (.inr (.inr id)) es
    | plain content =>
      rw [take]
      by_cases hsilent : (content.isEmpty || isDecoration content) = true
      · have hline : LineFollows (.plain content :: es) ↔ LineFollows es :=
          ⟨fun h => h.resolve_left fun hnot => hnot hsilent, .inr⟩
        rw [takeLine, if_pos hsilent, hline]
        exact ih hp hb
      have hparagraphs := paragraphs_takeLine_of_some hb content d
      rcases takeLine_held hp hb hsilent with
        ⟨hlater, hsub, p', hlonger, hb'⟩ | ⟨hkept, later', hlater', hb'⟩
      · have hnot : ¬ (later ≠ [] ∨ p.sub ≠ [] ∨ ¬ LineFollows (.plain content :: es)) := by
          simp [hlater, hsub, LineFollows, hsilent]
        rw [← hparagraphs]
        exact EndsUp.of_joined (ih (isEmpty_eq_false_of_lt hlonger) hb') hlonger hnot
      · exact hbehind hb' hparagraphs hlater' (or_assoc.1 (.inl hkept))
    | tagged tag qualifiers content =>
      rcases take_tagged_cases g tag qualifiers content with
        ⟨htag, htake⟩ | ⟨htag, htake⟩ | ⟨htag, htake⟩ |
          ⟨hdetails, htodo, hcode, hbuffer, hparagraphs⟩
      · have hline : ¬ LineFollows (.tagged tag qualifiers content :: es) := fun h => h.1.1 htag
        rw [htake]
        exact endsUp_of_opened hp hb (.inr (.inr hline)) _ content es
      · have hline : ¬ LineFollows (.tagged tag qualifiers content :: es) := fun h => h.1.2.1 htag
        rw [htake]
        exact endsUp_of_opened hp hb (.inr (.inr hline)) _ content es
      · have hline : ¬ LineFollows (.tagged tag qualifiers content :: es) := fun h => h.1.2.2 htag
        have hbuffer : Gathering.buffer { g with joinable := false } =
            some ⟨d, before ++ p :: later⟩ := hb
        rw [htake, takeCode_of_some hbuffer]
        refine hbehind ?_ (paragraphs_setBuffer g _ false d) (List.concat_ne_nil content later)
          (.inr (.inr hline))
        simp
      · have hline : LineFollows (.tagged tag qualifiers content :: es) ↔ LineFollows es :=
          ⟨And.right, And.intro ⟨hdetails, htodo, hcode⟩⟩
        rw [hline, ← hparagraphs]
        exact ih hp (hbuffer.trans hb)

/-! ## Code -/

/-- What becomes of a block of code, whatever was gathered before. -/
theorem endsUp_takeCode (hp : p.isEmpty = false) (hj : g.joinable = false) (es : List Element) :
    EndsUp (g.closeBuffer.paragraphs (g.route.getD .description)) p
      (g.route = none ∨ p.sub ≠ [] ∨ ¬ LineFollows es)
      ((es.foldl take (g.takeCode p)).closeBuffer.paragraphs (g.route.getD .description)) := by
  rcases hb : g.buffer with _ | ⟨d, bs⟩
  · have hj' : (g.takeCode p).joinable = false := by
      rw [takeCode_of_none hb]
      exact hj
    obtain ⟨later, hlater⟩ := exists_paragraphs_foldl_take hj' es .description
    have hcode : (g.takeCode p).paragraphs .description = g.paragraphs .description ++ [p] := by
      rw [takeCode_of_none hb]
      rfl
    rw [route_of_none hb, closeBuffer_of_none hb, Option.getD_none, hlater, hcode,
      List.append_assoc]
    exact endsUp_of_kept (.inl rfl) _ p later
  · have hb' : (g.takeCode p).buffer = some ⟨d, bs ++ p :: []⟩ := by rw [takeCode_of_some hb]
    have hends := endsUp_foldl_take hp hb' es
    have hparagraphs : (g.takeCode p).paragraphs d = g.paragraphs d := by
      rw [takeCode_of_some hb]
      exact paragraphs_setBuffer g _ g.joinable d
    have hclosed : g.closeBuffer.paragraphs d =
        (g.takeCode p).paragraphs d ++ bs.filter (!·.isEmpty) := by
      rw [paragraphs_closeBuffer, hparagraphs, buffered, hb]
      simp
    rw [route_of_some hb, Option.getD_some, hclosed]
    exact hends.congr (by simp)

end Gathering

/-- **Code is a paragraph of its own**, below the paragraphs that are there, if it is not in a
buffer, or has items, or is not followed by a line. Otherwise that line is joined to it. -/
theorem Documentation.ofElements_code_iff {content : Outline} (hcontent : content.isEmpty = false)
    (before after : List Element) (qualifiers : List Text) :
    ∃ paragraph later,
      (Documentation.ofElements (before ++ .tagged Tag.code qualifiers content :: after)).paragraphs
          ((routeAfter before).getD .description) =
        (Documentation.ofElements before).paragraphs ((routeAfter before).getD .description) ++
          paragraph :: later ∧
      (paragraph = content ↔
        routeAfter before = none ∨ content.sub ≠ [] ∨ ¬ LineFollows after) := by
  have hroute : (before.foldl Gathering.take {}).route = routeAfter before :=
    Gathering.route_foldl_take before {}
  have hbefore : ∀ d, (Documentation.ofElements before).paragraphs d =
      Gathering.paragraphs (Gathering.closeBuffer
        { before.foldl Gathering.take {} with joinable := false }) d := by
    intro d
    rw [Documentation.paragraphs_ofElements, Gathering.ofElements,
      Gathering.paragraphs_closeBuffer, Gathering.paragraphs_closeBuffer]
    cases d <;> rfl
  have hall : ∀ d,
      (Documentation.ofElements
          (before ++ .tagged Tag.code qualifiers content :: after)).paragraphs d =
        (after.foldl Gathering.take (Gathering.takeCode
          { before.foldl Gathering.take {} with joinable := false } content)).closeBuffer.paragraphs
            d := by
    intro d
    rw [Documentation.paragraphs_ofElements, Gathering.ofElements, List.foldl_append]
    rfl
  have hends : EndsUp
      ((Documentation.ofElements before).paragraphs ((routeAfter before).getD .description)) content
      (routeAfter before = none ∨ content.sub ≠ [] ∨ ¬ LineFollows after)
      ((Documentation.ofElements
        (before ++ .tagged Tag.code qualifiers content :: after)).paragraphs
          ((routeAfter before).getD .description)) := by
    rw [hbefore, hall, ← hroute]
    exact Gathering.endsUp_takeCode (g := { before.foldl Gathering.take {} with joinable := false })
      hcontent rfl after
  obtain ⟨paragraph, later, heq, hkept, hmore⟩ := hends
  refine ⟨paragraph, later, heq, ?_, hkept⟩
  intro hsame
  by_contra hnot
  exact absurd (hmore hnot) (hsame ▸ Nat.lt_irrefl _)

/-- Behind a separator, a line leaves the code in a buffer alone. -/
theorem Documentation.ofElements_code_in_buffer :
    ∃ later, (Documentation.ofElements [.tagged "todo".toList [] (.leaf "A".toList),
        .tagged Tag.code [] (.leaf "x".toList), .separator, .plain (.leaf "B".toList)]).paragraphs
          .todos = [.leaf "A".toList] ++ .leaf "x".toList :: later := by
  have hcontent : (Outline.leaf "x".toList).isEmpty = false := by decide
  obtain ⟨paragraph, later, heq, hiff⟩ := Documentation.ofElements_code_iff hcontent
    [.tagged "todo".toList [] (.leaf "A".toList)] [.separator, .plain (.leaf "B".toList)] []
  obtain rfl : paragraph = .leaf "x".toList := hiff.2 (.inr (.inr id))
  exact ⟨later, heq⟩

/-- Code in a buffer does not stay a paragraph of its own if a line follows. -/
theorem Documentation.ofElements_joins_code :
    (Documentation.ofElements [.tagged "details".toList [] (.leaf "A".toList),
        .tagged Tag.code [] (.leaf "```\nx\n```".toList), .plain (.leaf "B".toList)]).description =
      some [.leaf "A".toList, .leaf "```\nx\n```\nB".toList] := by decide

end DoxygenMarkdown

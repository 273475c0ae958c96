import DoxygenMarkdown.Proofs.Sections.Parts

/-!
# A separator parts documentations

What stands before a separator and what stands behind it are documented independently: the
documentation of the whole is made of the two documentations, part by part (`Documentation.merge`),
whatever elements they come from (`Documentation.ofElements_separator`).

Besides the parts, a gathering has a buffer, and it remembers whether a line would go on with the
last paragraph. A separator brings both back to what they are at the start. From there on two
gatherings run side by side, one of which has gathered something before (`Gathering.append`), and
every element is taken in by both alike (`Gathering.take_append`). The one element that looks at
what was gathered before is a line that goes on with a paragraph, and such a paragraph was gathered
behind the separator: this is the invariant `Gathering.JoinsOwn`.
-/

namespace DoxygenMarkdown

/-- An outline with another one below it: their texts below each other, and the items of both. -/
def Outline.joinBelow (o p : Outline) : Outline := ⟨o.top ++ '\n' :: p.top, o.sub ++ p.sub⟩

theorem Outline.joinBelow_assoc (o p q : Outline) :
    (o.joinBelow p).joinBelow q = o.joinBelow (p.joinBelow q) := by
  simp only [joinBelow, List.append_assoc, List.cons_append]

/-- The entries of two lists, each of which may be absent. A list without entries is absent. -/
def mergeParts {α : Type} (xs ys : Option (List α)) : Option (List α) :=
  Gathering.part? (xs.getD [] ++ ys.getD [])

/-- Two documentations of the same item as one, the first before the second. Of a part that can be
there only once, the second one counts; short descriptions are put below each other, and lists one
behind the other. -/
def Documentation.merge (d e : Documentation) : Documentation where
  title := e.title.or d.title
  brief := d.brief.merge Outline.joinBelow e.brief
  description := mergeParts d.description e.description
  parameters := mergeParts d.parameters e.parameters
  deprecated := e.deprecated.or d.deprecated
  notes := mergeParts d.notes e.notes
  warnings := mergeParts d.warnings e.warnings
  todos := mergeParts d.todos e.todos
  returns := mergeParts d.returns e.returns
  returnValues := mergeParts d.returnValues e.returnValues
  throws := mergeParts d.throws e.throws
  since := e.since.or d.since

namespace Gathering

/-- What is known after all that was gathered before and all that came then. What the buffer holds,
and whether a line would be joined, is known from the latter. -/
def append (before g : Gathering) : Gathering where
  title := g.title.or before.title
  brief := before.brief.merge Outline.joinBelow g.brief
  description := before.description ++ g.description
  parameters := before.parameters ++ g.parameters
  deprecated := g.deprecated.or before.deprecated
  notes := before.notes ++ g.notes
  warnings := before.warnings ++ g.warnings
  todos := before.todos ++ g.todos
  returns := before.returns ++ g.returns
  returnValues := before.returnValues ++ g.returnValues
  throws := before.throws ++ g.throws
  since := g.since.or before.since
  buffer := g.buffer
  joinable := g.joinable
  notices := before.notices ++ g.notices

/-- A paragraph that a line would go on with is there. -/
def JoinsOwn (g : Gathering) : Prop := g.joinable = true → g.description ≠ []

variable {before g : Gathering}

/-! ## The buffer -/

/-- Closing a buffer does not look at what was gathered before. -/
theorem closeBuffer_append (before g : Gathering) :
    (before.append g).closeBuffer = before.append g.closeBuffer := by
  obtain ⟨_, _, _, _, _, _, _, _, _, _, _, _, buffer, _, _⟩ := g
  rcases buffer with _ | ⟨_ | _, paragraphs⟩ <;> simp [append, closeBuffer]

/-- Neither does opening one. -/
theorem openBuffer_append (before g : Gathering) (destination : Destination) (content : Outline) :
    (before.append g).openBuffer destination content =
      before.append (g.openBuffer destination content) := by
  rw [openBuffer, closeBuffer_append]
  rfl

theorem takeCode_append (before g : Gathering) (content : Outline) :
    (before.append g).takeCode content = before.append (g.takeCode content) := by
  obtain ⟨_, _, _, _, _, _, _, _, _, _, _, _, buffer, _, _⟩ := g
  rcases buffer with _ | b <;> simp [append, takeCode]

/-! ## One element -/

theorem report_append (before g : Gathering) (n : Notice) :
    (before.append g).report n = before.append (g.report n) := by
  simp only [report, append, List.append_assoc]

/-- A brief goes on with the one of its own group, and both with the one before. -/
theorem merge_joinBrief (b c : Option Outline) (content : Outline) :
    some (joinBrief (b.merge Outline.joinBelow c) content) =
      b.merge Outline.joinBelow (some (joinBrief c content)) := by
  rcases b with _ | b
  · cases c <;> rfl
  · rcases c with _ | c
    · rfl
    · exact congrArg some (Outline.joinBelow_assoc b c content)

/-- A tag is gathered behind others as it is by itself. -/
theorem takeRole_append (before g : Gathering) (tag : Text) (qualifiers : List Text)
    (content : Outline) (r : Role) :
    (before.append g).takeRole tag qualifiers content r =
      before.append (g.takeRole tag qualifiers content r) := by
  cases r with
  | brief => simp only [takeRole, append, merge_joinBrief]
  | details | todo => exact openBuffer_append before g _ content
  | parameter | returnValue | throws =>
    simp only [takeRole]
    -- without a name, the tag is only reported
    rcases content.splitName? with _ | ⟨name, description⟩
    · exact report_append before g _
    · simp only [append, List.append_assoc]
  | code => exact takeCode_append before g content
  | unsupported => exact report_append before g _
  | _ => simp [takeRole, append]

/-- A line that goes on with a paragraph leaves the paragraphs before it alone. -/
theorem joinParagraph_append {os : List Outline} {join : Bool} (h : join = true → os ≠ [])
    (ps : List Outline) (content : Outline) :
    joinParagraph (ps ++ os) content join = ps ++ joinParagraph os content join := by
  rcases os.eq_nil_or_concat with rfl | ⟨os, o, rfl⟩
  · obtain rfl : join = false := Bool.eq_false_iff.2 fun hj => h hj rfl
    rw [List.append_nil, joinParagraph, joinParagraph]
    rcases ps.getLast? with _ | p <;> rfl
  · rw [List.concat_eq_append, ← List.append_assoc, joinParagraph, joinParagraph,
      List.getLast?_concat, List.getLast?_concat, List.dropLast_concat, List.dropLast_concat]
    simp only
    split <;> simp only [List.append_assoc]

/-- A line would go on with a paragraph from before only if its own group has none. -/
theorem takeLine_append (hg : g.JoinsOwn) (before : Gathering) (content : Outline) :
    (before.append g).takeLine content = before.append (g.takeLine content) := by
  rw [takeLine, takeLine]
  split
  · rfl
  · obtain ⟨_, _, _, _, _, _, _, _, _, _, _, _, buffer, _, _⟩ := g
    rcases buffer with _ | b
    · simp only [append, joinParagraph_append hg]
    · rfl

/-- **Both gatherings take in an element alike**, whatever one of them has gathered before. -/
theorem take_append (hg : g.JoinsOwn) (before : Gathering) (e : Element) :
    (before.append g).take e = before.append (g.take e) := by
  cases e with
  | tagged tag qualifiers content =>
    simp only [take]
    rcases Tag.role? tag with _ | r
    · rfl
    · exact takeRole_append before { g with joinable := false } tag qualifiers content r
  | plain content => exact takeLine_append hg before content
  | separator =>
    simp only [take, takeSeparator, closeBuffer_append]
    rfl
  | groupOpen | groupClose | bareMarker => rfl

/-! ## The invariant -/

theorem joinable_closeBuffer (g : Gathering) : g.closeBuffer.joinable = g.joinable := by
  obtain ⟨_, _, _, _, _, _, _, _, _, _, _, _, buffer, _, _⟩ := g
  rcases buffer with _ | ⟨_ | _, paragraphs⟩ <;> rfl

/-- What a tag says does not change whether the next line goes on with a paragraph. -/
theorem joinable_takeRole (g : Gathering) (tag : Text) (qualifiers : List Text)
    (content : Outline) (r : Role) :
    (g.takeRole tag qualifiers content r).joinable = g.joinable := by
  cases r with
  | details | todo => exact joinable_closeBuffer g
  | parameter | returnValue | throws =>
    simp only [takeRole]
    rcases content.splitName? with _ | ⟨name, description⟩ <;> rfl
  | code =>
    simp only [takeRole, takeCode]
    rcases g.buffer with _ | b <;> rfl
  | _ => rfl

theorem joinParagraph_ne_nil (os : List Outline) (content : Outline) (join : Bool) :
    joinParagraph os content join ≠ [] := by
  rw [joinParagraph]
  split
  · split <;> simp
  · simp

theorem joinsOwn_of_joinable (h : g.joinable = false) : g.JoinsOwn := fun hj =>
  absurd (h.symm.trans hj) Bool.false_ne_true

/-- Only a line that went to the description can be joined. -/
theorem JoinsOwn.take (hg : g.JoinsOwn) (e : Element) : (g.take e).JoinsOwn := by
  cases e with
  | tagged tag qualifiers content =>
    apply joinsOwn_of_joinable
    simp only [Gathering.take]
    rcases Tag.role? tag with _ | r
    · rfl
    · exact joinable_takeRole _ tag qualifiers content r
  | plain content =>
    simp only [Gathering.take, takeLine]
    split
    · exact hg
    · split
      · exact hg
      · exact fun _ => joinParagraph_ne_nil _ _ _
  | separator => exact joinsOwn_of_joinable rfl
  | groupOpen | groupClose | bareMarker => exact hg

/-! ## All elements -/

/-- Elements are gathered behind others as they are by themselves. -/
theorem foldl_take_append (hg : g.JoinsOwn) (before : Gathering) (es : List Element) :
    es.foldl take (before.append g) = before.append (es.foldl take g) := by
  induction es generalizing g with
  | nil => rfl
  | cons e es ih =>
    rw [List.foldl_cons, take_append hg]
    exact ih (hg.take e)

/-- After a separator it is as if everything was gathered before. -/
theorem takeSeparator_append_init (g : Gathering) :
    g.takeSeparator.append {} = g.takeSeparator := by
  have hb : g.takeSeparator.buffer = none := buffer_closeBuffer g
  have hj : g.takeSeparator.joinable = false := rfl
  generalize g.takeSeparator = h at hb hj
  obtain ⟨_, _, _, _, _, _, _, _, _, _, _, _, _, _, _⟩ := h
  obtain rfl : _ = none := hb
  obtain rfl : _ = false := hj
  simp [append]

/-- What stands behind a separator is gathered as if nothing stood before it. -/
theorem ofElements_append_separator (es fs : List Element) :
    ofElements (es ++ .separator :: fs) = (ofElements es).takeSeparator.append (ofElements fs) := by
  have hinit : JoinsOwn {} := joinsOwn_of_joinable rfl
  have hclose : (ofElements es).takeSeparator = (es.foldl take {}).takeSeparator := by
    rw [ofElements, takeSeparator, takeSeparator, closeBuffer_closeBuffer]
  rw [ofElements, List.foldl_append, List.foldl_cons, take, ← takeSeparator_append_init,
    foldl_take_append hinit, closeBuffer_append, hclose]
  rfl

/-! ## The parts -/

theorem part?_append {α : Type} (xs ys : List α) :
    part? (xs ++ ys) = mergeParts (part? xs) (part? ys) := by
  rw [mergeParts, getD_part?, getD_part?]

/-- What two groups give is merged section by section. -/
theorem documentation_append (before g : Gathering) :
    (before.append g).documentation = before.documentation.merge g.documentation := by
  simp only [documentation, append, Documentation.merge, part?_append]

/-- A separator at the end changes nothing that is given. -/
theorem documentation_takeSeparator_ofElements (es : List Element) :
    (ofElements es).takeSeparator.documentation = (ofElements es).documentation := by
  rw [takeSeparator, ofElements, closeBuffer_closeBuffer]
  rfl

end Gathering

/-- **A separator parts documentations.** The documentation of some elements, a separator and some
more elements is made of the documentations of the two, the second one taking precedence where only
one of them can be kept. -/
theorem Documentation.ofElements_separator (es fs : List Element) :
    Documentation.ofElements (es ++ [.separator] ++ fs) =
      (Documentation.ofElements es).merge (Documentation.ofElements fs) := by
  rw [List.append_assoc, List.singleton_append, Documentation.ofElements,
    Gathering.ofElements_append_separator, Gathering.documentation_append,
    Gathering.documentation_takeSeparator_ofElements]
  rfl

end DoxygenMarkdown

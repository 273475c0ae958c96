import DoxygenMarkdown.Documentation.Gathering

/-!
# Tags act on their own part

What a tag says goes to one part of the documentation, and no tag looks at the part of another. The
one thing that tags have in common is the buffer for paragraphs, which is closed sooner or later by
whatever comes next. Once it is closed (`Gathering.part`) there is nothing left that they share:

* a tag leaves every other part alone (`Gathering.part_take_of_ne`);
* what it does to its part depends on that part only (`Gathering.part_take_congr`).

So a part of the documentation is what the tags with its role make of it, and everything in between
can be left out (`Gathering.part_foldl_take`).

This is about tags and blank lines. A line of text is not of this kind: it goes to the buffer, and
what that is for depends on the tag before.
-/

namespace DoxygenMarkdown

/-- The role of the tag that an element is. -/
def Element.role? : Element → Option Role
  | tagged tag _ _ => Tag.role? tag
  | _ => none

/-- Elements that go to one part of the documentation, whatever stands before them: tags other than
those for code, and elements that only separate. -/
def Element.IsSorted : Element → Prop
  | tagged tag _ _ => ∃ r, Tag.role? tag = some r ∧ r ≠ .code
  | plain _ => False
  | separator | groupOpen | groupClose | bareMarker => True

namespace Gathering

/-- The part of a gathering that tags with some role go to, and nothing else of it. -/
def restrict (g : Gathering) : Role → Gathering
  | .brief => { brief := g.brief }
  | .title => { title := g.title }
  | .deprecated => { deprecated := g.deprecated }
  | .details => { description := g.description }
  | .todo => { todos := g.todos }
  | .parameter => { parameters := g.parameters }
  | .returns => { returns := g.returns }
  | .returnValue => { returnValues := g.returnValues }
  | .throws => { throws := g.throws }
  | .note => { notes := g.notes }
  | .warning => { warnings := g.warnings }
  | .since => { since := g.since }
  | .code | .endCode | .unsupported => {}

/-- The part that tags with some role go to, once the buffer is closed. -/
def part (g : Gathering) (r : Role) : Gathering := g.closeBuffer.restrict r

/-! ## The buffer -/

theorem closeBuffer_of_none {g : Gathering} (h : g.buffer = none) : g.closeBuffer = g := by
  rw [closeBuffer, h]

theorem buffer_closeBuffer (g : Gathering) : g.closeBuffer.buffer = none := by
  rcases hb : g.buffer with _ | ⟨_ | _, paragraphs⟩
  · rw [closeBuffer_of_none hb, hb]
  · rw [closeBuffer, hb]
  · rw [closeBuffer, hb]

theorem closeBuffer_closeBuffer (g : Gathering) : g.closeBuffer.closeBuffer = g.closeBuffer :=
  closeBuffer_of_none (buffer_closeBuffer g)

/-- A tag may find the buffer open or closed: once it is closed afterwards, that makes no
difference. -/
theorem closeBuffer_takeRole (g : Gathering) (tag : Text) (qualifiers : List Text)
    (content : Outline) {r : Role} (hr : r ≠ .code) :
    (g.takeRole tag qualifiers content r).closeBuffer =
      (g.closeBuffer.takeRole tag qualifiers content r).closeBuffer := by
  cases r with
  | code => exact absurd rfl hr
  | details => rw [takeRole, takeRole, openBuffer, openBuffer, closeBuffer_closeBuffer]
  | todo => rw [takeRole, takeRole, openBuffer, openBuffer, closeBuffer_closeBuffer]
  | parameter | returnValue | throws =>
    obtain ⟨_, _, _, _, _, _, _, _, _, _, _, _, buffer, _, _⟩ := g
    rcases buffer with _ | ⟨_ | _, paragraphs⟩ <;> simp only [takeRole] <;>
      rcases content.splitName? with _ | ⟨name, description⟩ <;> rfl
  | _ =>
    obtain ⟨_, _, _, _, _, _, _, _, _, _, _, _, buffer, _, _⟩ := g
    rcases buffer with _ | ⟨_ | _, paragraphs⟩ <;> rfl

/-! ## Lists -/

theorem getD_part? {α : Type} (xs : List α) : (part? xs).getD [] = xs := by
  cases xs <;> rfl

/-! ## One tag -/

variable {tag : Text} {qualifiers : List Text} {content : Outline} {r r' : Role}

theorem restrict_takeRole_of_ne {g : Gathering} (hg : g.buffer = none) (hr : r ≠ .code)
    (hne : r ≠ r') :
    (g.takeRole tag qualifiers content r).closeBuffer.restrict r' = g.restrict r' := by
  obtain ⟨_, _, _, _, _, _, _, _, _, _, _, _, _, _, _⟩ := g
  obtain rfl : _ = none := hg
  cases r with
  | code => exact absurd rfl hr
  | parameter | returnValue | throws =>
    simp only [takeRole]
    -- without a name, the tag is only reported
    rcases content.splitName? with _ | ⟨name, description⟩
    · rfl
    · cases r' <;> first | exact absurd rfl hne | rfl
  | _ => cases r' <;> first | exact absurd rfl hne | rfl

theorem restrict_takeRole_congr {g h : Gathering} (hg : g.buffer = none) (hh : h.buffer = none)
    (hr : r ≠ .code) (hgh : g.restrict r = h.restrict r) :
    (g.takeRole tag qualifiers content r).closeBuffer.restrict r =
      (h.takeRole tag qualifiers content r).closeBuffer.restrict r := by
  obtain ⟨_, _, _, _, _, _, _, _, _, _, _, _, _, _, _⟩ := g
  obtain ⟨_, _, _, _, _, _, _, _, _, _, _, _, _, _, _⟩ := h
  obtain rfl : _ = none := hg
  obtain rfl : _ = none := hh
  cases r with
  | code => exact absurd rfl hr
  | parameter | returnValue | throws =>
    simp only [restrict, Gathering.mk.injEq, true_and, and_true] at hgh
    subst hgh
    simp only [takeRole]
    rcases content.splitName? with _ | ⟨name, description⟩ <;> rfl
  | endCode | unsupported => rfl
  | _ =>
    simp only [restrict, Gathering.mk.injEq, true_and, and_true] at hgh
    subst hgh
    rfl

/-! ## One element -/

theorem part_setJoinable (g : Gathering) (b : Bool) :
    ({ g with joinable := b }).part r = g.part r := by
  obtain ⟨_, _, _, _, _, _, _, _, _, _, _, _, buffer, _, _⟩ := g
  rcases buffer with _ | ⟨_ | _, paragraphs⟩ <;> cases r <;> rfl

theorem part_closeBuffer (g : Gathering) : g.closeBuffer.part r = g.part r := by
  rw [part, closeBuffer_closeBuffer]
  rfl

theorem part_takeSeparator (g : Gathering) : g.takeSeparator.part r = g.part r := by
  rw [takeSeparator, part_setJoinable, part_closeBuffer]

theorem take_tagged {r : Role} (hr : Tag.role? tag = some r) (g : Gathering) :
    g.take (.tagged tag qualifiers content) =
      ({ g with joinable := false }).takeRole tag qualifiers content r := by
  simp only [take, hr]

/-- A tag leaves every part but its own alone, and what only separates leaves every part alone. -/
theorem part_take_of_ne {e : Element} (he : e.IsSorted) (hne : e.role? ≠ some r) (g : Gathering) :
    (g.take e).part r = g.part r := by
  cases e with
  | plain content => exact he.elim
  | separator => exact part_takeSeparator g
  | groupOpen | groupClose | bareMarker => rfl
  | tagged tag qualifiers content =>
    obtain ⟨r', hr', hcode⟩ := he
    have hne' : r' ≠ r := fun h => hne (by rw [Element.role?, hr', h])
    rw [take_tagged hr', part, closeBuffer_takeRole _ _ _ _ hcode,
      restrict_takeRole_of_ne (buffer_closeBuffer _) hcode hne']
    exact part_setJoinable g false

/-- What an element does to a part depends on nothing but that part. -/
theorem part_take_congr {e : Element} (he : e.IsSorted) {g h : Gathering}
    (hgh : g.part r = h.part r) : (g.take e).part r = (h.take e).part r := by
  by_cases hne : e.role? = some r
  · cases e with
    | tagged tag qualifiers content =>
      obtain ⟨r', hr', hcode⟩ := he
      obtain rfl : r' = r := Option.some.inj (hr'.symm.trans hne)
      have hpart (k : Gathering) : (k.takeRole tag qualifiers content r').part r' =
          (k.closeBuffer.takeRole tag qualifiers content r').closeBuffer.restrict r' :=
        congrArg (restrict · r') (closeBuffer_takeRole k tag qualifiers content hcode)
      rw [take_tagged hr', take_tagged hr', hpart, hpart]
      refine restrict_takeRole_congr (buffer_closeBuffer _) (buffer_closeBuffer _) hcode ?_
      exact (part_setJoinable g false).trans (hgh.trans (part_setJoinable h false).symm)
    | _ => cases hne
  · rw [part_take_of_ne he hne, part_take_of_ne he hne, hgh]

/-! ## All elements -/

theorem part_foldl_take_congr {es : List Element} (hes : ∀ e ∈ es, e.IsSorted) {g h : Gathering}
    (hgh : g.part r = h.part r) : (es.foldl take g).part r = (es.foldl take h).part r := by
  induction es generalizing g h with
  | nil => exact hgh
  | cons e es ih =>
    exact ih (fun f hf => hes f (List.mem_cons_of_mem _ hf))
      (part_take_congr (hes e List.mem_cons_self) hgh)

/-- **A part is made by its own tags.** Whatever else stands between them can be left out. -/
theorem part_foldl_take {es : List Element} (hes : ∀ e ∈ es, e.IsSorted) (g : Gathering) :
    (es.foldl take g).part r = ((es.filter (·.role? = some r)).foldl take g).part r := by
  induction es generalizing g with
  | nil => rfl
  | cons e es ih =>
    have he := hes e List.mem_cons_self
    have hes' : ∀ f ∈ es, f.IsSorted := fun f hf => hes f (List.mem_cons_of_mem _ hf)
    by_cases hr : e.role? = some r
    · rw [List.filter_cons_of_pos (by simpa using hr)]
      exact ih hes' (g.take e)
    · rw [List.filter_cons_of_neg (by simpa using hr), List.foldl_cons, ← ih hes']
      exact part_foldl_take_congr hes' (part_take_of_ne he hr g)

/-- A documentation is its parts. -/
theorem documentation_congr {g h : Gathering} (hgh : ∀ r, g.restrict r = h.restrict r) :
    g.documentation = h.documentation := by
  have field {α : Type} (f : Gathering → α) (r : Role) : f (g.restrict r) = f (h.restrict r) :=
    congrArg f (hgh r)
  have title : g.title = h.title := field title .title
  have brief : g.brief = h.brief := field brief .brief
  have description : g.description = h.description := field description .details
  have parameters : g.parameters = h.parameters := field parameters .parameter
  have deprecated : g.deprecated = h.deprecated := field deprecated .deprecated
  have notes : g.notes = h.notes := field notes .note
  have warnings : g.warnings = h.warnings := field warnings .warning
  have todos : g.todos = h.todos := field todos .todo
  have returns : g.returns = h.returns := field returns .returns
  have returnValues : g.returnValues = h.returnValues := field returnValues .returnValue
  have throws : g.throws = h.throws := field throws .throws
  have since : g.since = h.since := field since .since
  simp only [documentation, title, brief, description, parameters, deprecated, notes, warnings,
    todos, returns, returnValues, throws, since]

/-- Elements that have the same tags of each role, in the same order, make up the same
documentation. -/
theorem ofElements_congr {es fs : List Element}
    (hes : ∀ e ∈ es, e.IsSorted) (hfs : ∀ e ∈ fs, e.IsSorted)
    (h : ∀ r, es.filter (·.role? = some r) = fs.filter (·.role? = some r)) :
    Documentation.ofElements es = Documentation.ofElements fs := by
  apply documentation_congr
  intro r
  have hpart : (es.foldl take {}).part r = (fs.foldl take {}).part r := by
    rw [part_foldl_take hes, part_foldl_take hfs, h]
  exact hpart

end Gathering

end DoxygenMarkdown

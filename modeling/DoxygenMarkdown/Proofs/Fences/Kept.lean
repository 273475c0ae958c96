import DoxygenMarkdown.Proofs.Fences.Block
import DoxygenMarkdown.Proofs.Fences.Gathering
import DoxygenMarkdown.Proofs.Sections.Parts
import DoxygenMarkdown.Proofs.Text.Blank

/-!
# What is said is kept

An element says something to one part of the documentation: its content, or what is left of it
without the name that it begins with (`Element.said?`). Tags name their part, and lines and code go
to the description, or to the things to do while a list of these is growing (`Gathering.partOf?`).

A block of code in what an element says is found in that part in the end (`Gathering.exists_kept`).
Parts only grow: a paragraph at its end, the other parts by one more outline. Only a title, a
version and a deprecation are replaced by the next one (`Role.IsReplaced`).
-/

namespace DoxygenMarkdown

variable {k : LineKinds} {block : List Text} {level : Nat}

/-- There is a paragraph that holds a block. -/
def SomeHolds (k : LineKinds) (block : List Text) (level : Nat) (os : List Outline) : Prop :=
  ∃ o ∈ os, o.Holds k block level

theorem SomeHolds.append_left {os : List Outline} (h : SomeHolds k block level os)
    (ps : List Outline) : SomeHolds k block level (os ++ ps) := by
  obtain ⟨o, ho, hblock⟩ := h
  exact ⟨o, List.mem_append_left _ ho, hblock⟩

theorem SomeHolds.append_right {ps : List Outline} (h : SomeHolds k block level ps)
    (os : List Outline) : SomeHolds k block level (os ++ ps) := by
  obtain ⟨o, ho, hblock⟩ := h
  exact ⟨o, List.mem_append_right _ ho, hblock⟩

theorem someHolds_singleton {o : Outline} (h : o.Holds k block level) :
    SomeHolds k block level [o] := ⟨o, List.mem_singleton_self o, h⟩

/-! ## What holds a block is not left out -/

namespace Outline

variable {o : Outline}

/-- A text that holds a block has a backtick in it. -/
theorem Holds.backtick_mem (hb : IsBlock block) (h : o.Holds k block 0) : '`' ∈ o.top := by
  obtain ⟨first, code, rfl⟩ := hb
  cases h with
  | top _ h =>
    have hmem : Markdown.fence ∈ o.top.lines := by
      rw [h]
      simp
    exact Text.mem_of_mem_lines hmem (by decide)

/-- So it is no decoration, and is not dropped. -/
theorem Holds.isDecoration_eq (hb : IsBlock block) (h : o.Holds k block level) :
    isDecoration o = false := by
  cases h with
  | top habove h =>
    have hmem := Text.mem_trim (by decide) (Holds.backtick_mem hb (.top habove h))
    have hnot : ["*".toList, "**".toList, "*/".toList].contains o.top.trim = false := by
      rw [Bool.eq_false_iff, ne_eq, List.contains_iff_mem]
      intro hc
      simp only [List.mem_cons, List.not_mem_nil, or_false] at hc
      rcases hc with hc | hc | hc <;> rw [hc] at hmem <;> revert hmem <;> decide
    rw [isDecoration, hnot, Bool.and_false]
  | item hp h =>
    rw [isDecoration, List.isEmpty_eq_false_iff.2 (List.ne_nil_of_mem hp), Bool.false_and]

end Outline

/-! ## Paragraphs that are joined -/

theorem SomeHolds.joinParagraph (hb : IsBlock block) {os : List Outline}
    (h : SomeHolds k block level os) (content : Outline) (join : Bool) :
    SomeHolds k block level (joinParagraph os content join) := by
  unfold DoxygenMarkdown.joinParagraph
  split
  · next last hlast =>
    split
    · next hjoin =>
      have hsub : last.sub = [] := List.isEmpty_iff.1 (Bool.and_eq_true_iff.1 hjoin).2
      obtain ⟨o, ho, hblock⟩ := h
      obtain ⟨ps, rfl⟩ := List.getLast?_eq_some_iff.1 hlast
      rw [List.dropLast_concat]
      rcases List.mem_append.1 ho with ho | ho
      · exact SomeHolds.append_left ⟨o, ho, hblock⟩ _
      · obtain rfl := List.mem_singleton.1 ho
        refine SomeHolds.append_right (someHolds_singleton ?_) _
        cases hblock.of_growth hb (.startLine content.top) with
        | top habove h => exact .top habove h
        | item hp h =>
          rw [Outline.sub_startLine, hsub] at hp
          cases hp
    · exact h.append_left _
  · exact h.append_left _

/-- A text that holds a block is found in the paragraphs that it is put into. -/
theorem someHolds_joinParagraph {os : List Outline} (hos : ∀ o ∈ os, o.All (FencedText k))
    {content : Outline} (h : content.Holds k block level) (join : Bool) :
    SomeHolds k block level (joinParagraph os content join) := by
  unfold joinParagraph
  split
  · next last hlast =>
    split
    · refine SomeHolds.append_right (someHolds_singleton ?_) _
      cases h with
      | item hp h => exact .item hp h
      | @top _ above below habove h =>
        unfold Outline.startLine
        split
        · exact .top habove h
        · have hlast : FencedText k last.top := (hos last (List.mem_of_getLast? hlast)).top
          have hlines : Text.lines (last.top ++ '\n' :: content.top) =
              (last.top.lines ++ above) ++ block ++ below := by
            rw [Text.lines_append_break, h]
            simp
          exact .top (hlast.append habove) hlines
    · exact SomeHolds.append_right (someHolds_singleton h) _
  · exact SomeHolds.append_right (someHolds_singleton h) _

/-! ## Parts -/

/-- Only the last tag with such a role counts. -/
def Role.IsReplaced (r : Role) : Prop := r = .title ∨ r = .deprecated ∨ r = .since

/-- The role of the tag for a destination. -/
def Destination.role : Destination → Role
  | .description => .details
  | .todos => .todo

/-- What an element says. -/
def Element.said? : Element → Option Outline
  | .tagged tag _ content =>
    match Tag.role? tag with
    | some .title => some (.leaf content.top)
    | some .parameter | some .returnValue | some .throws =>
      content.splitName?.bind fun named => named.2
    | some .endCode | some .unsupported | none => none
    | some _ => some content
  | .plain content => some content
  | _ => none

namespace Gathering

variable {g : Gathering} {content : Outline}

/-- The outlines of a part, as far as they are gathered. -/
def outlines (g : Gathering) : Role → List Outline
  | .brief => g.brief.toList
  | .title => (g.title.map fun o => .leaf o.top).toList
  | .deprecated => (g.deprecated.bind (·.message)).toList
  | .details => g.description
  | .todo => g.todos
  | .parameter => g.parameters.flatMap (·.description.toList)
  | .returns => g.returns
  | .returnValue => g.returnValues.flatMap (·.description.toList)
  | .throws => g.throws.flatMap (·.description.toList)
  | .note => g.notes
  | .warning => g.warnings
  | .since => g.since.toList
  | .code | .endCode | .unsupported => []

/-- The part that lines and code go to. -/
def linesGoTo (g : Gathering) : Role :=
  match g.buffer with
  | some b => b.destination.role
  | none => .details

/-- The part that an element goes to, after what was gathered before it. -/
def partOf? (g : Gathering) : Element → Option Role
  | .tagged tag _ _ => (Tag.role? tag).map fun r => if r = .code then g.linesGoTo else r
  | .plain _ => some g.linesGoTo
  | _ => none

/-- An outline of a part, or one that will be in it once the buffer is closed, holds a block. -/
def PartHolds (k : LineKinds) (block : List Text) (level : Nat) (r : Role) (g : Gathering) : Prop :=
  SomeHolds k block level (g.outlines r) ∨
    ∃ b ∈ g.buffer, b.destination.role = r ∧ SomeHolds k block level b.paragraphs

theorem outlines_setBuffer (g : Gathering) (b : Option Buffer) (r : Role) :
    ({ g with buffer := b } : Gathering).outlines r = g.outlines r := by
  cases r <;> rfl

theorem outlines_setJoinable (g : Gathering) (b : Bool) (r : Role) :
    ({ g with joinable := b } : Gathering).outlines r = g.outlines r := by
  cases r <;> rfl

variable {r : Role}

/-- Closing the buffer brings its paragraphs to their part. -/
theorem PartHolds.closeBuffer (hb : IsBlock block) (h : g.PartHolds k block level r) :
    SomeHolds k block level (g.closeBuffer.outlines r) := by
  rcases h with h | ⟨b, hbuffer, rfl, o, ho, hblock⟩
  · unfold Gathering.closeBuffer
    split
    · exact h
    split <;> cases r <;> first | exact h | exact h.append_left _
  · have hmem : o ∈ b.paragraphs.filter (!·.isEmpty) :=
      List.mem_filter.2 ⟨ho, by simp [hblock.isEmpty_eq hb]⟩
    obtain ⟨destination, paragraphs⟩ := b
    rw [Gathering.closeBuffer, hbuffer]
    cases destination <;> exact SomeHolds.append_right ⟨o, hmem, hblock⟩ _

/-- A block that a section holds is held while the paragraphs of the buffer only gain. -/
theorem PartHolds.setParagraphs (h : g.PartHolds k block level r) {b : Buffer}
    (hbuffer : g.buffer = some b) {ps : List Outline}
    (hps : SomeHolds k block level b.paragraphs → SomeHolds k block level ps) :
    ({ g with buffer := some { b with paragraphs := ps } } : Gathering).PartHolds
      k block level r := by
  rcases h with h | ⟨b', hb', hd, h⟩
  · exact .inl (by rwa [outlines_setBuffer])
  · obtain rfl := Option.some.inj (hbuffer.symm.trans hb')
    exact .inr ⟨_, rfl, hd, hps h⟩

theorem PartHolds.setDescription (h : g.PartHolds k block level r) (hbuffer : g.buffer = none)
    {ps : List Outline} (hps : SomeHolds k block level g.description → SomeHolds k block level ps)
    (joinable : Bool) :
    ({ g with description := ps, joinable := joinable } : Gathering).PartHolds k block level r := by
  rcases h with h | ⟨b', hb', -⟩
  · left
    cases r <;> first | exact h | exact hps h
  · rw [hbuffer] at hb'
    cases hb'

/-- A line without a tag leaves the blocks of every section. -/
theorem PartHolds.takeLine (hb : IsBlock block) (h : g.PartHolds k block level r)
    (content : Outline) : (g.takeLine content).PartHolds k block level r := by
  unfold Gathering.takeLine
  split
  · exact h
  split
  · next b hbuffer => exact h.setParagraphs hbuffer fun hps => hps.joinParagraph hb _ _
  · next hbuffer => exact h.setDescription hbuffer (fun hps => hps.joinParagraph hb _ _) true

theorem PartHolds.takeCode (h : g.PartHolds k block level r) (content : Outline) :
    (g.takeCode content).PartHolds k block level r := by
  unfold Gathering.takeCode
  split
  · next b hbuffer => exact h.setParagraphs hbuffer fun hps => hps.append_left _
  · next hbuffer => exact h.setDescription hbuffer (fun hps => hps.append_left _) g.joinable

/-- A second brief leaves the blocks of the first one. -/
theorem holds_joinBrief_left (hb : IsBlock block) {b : Outline} (h : b.Holds k block level)
    (content : Outline) : (joinBrief (some b) content).Holds k block level := by
  cases h with
  | top habove h =>
    obtain ⟨below, hlines⟩ := (Outline.Growth.addLine content.top).lines_top hb h
    exact .top habove hlines
  | item hp h => exact .item (List.mem_append_left _ hp) h

/-- The blocks of the second brief are in the joined one, as many levels deep. -/
theorem holds_joinBrief_right {b : Option Outline} (hbrief : ∀ o ∈ b, o.All (FencedText k))
    (h : content.Holds k block level) : (joinBrief b content).Holds k block level := by
  rcases b with _ | b
  · exact h
  · cases h with
    | @top _ above below habove h =>
      have hb : FencedText k b.top := (hbrief b rfl).top
      have hlines : Text.lines (b.top ++ '\n' :: content.top) =
          (b.top.lines ++ above) ++ block ++ below := by
        rw [Text.lines_append_break, h]
        simp
      exact .top (hb.append habove) hlines
    | item hp h => exact .item (List.mem_append_right _ hp) h

/-- A tag adds to its part, or it replaces what is there. -/
theorem PartHolds.takeRole (hb : IsBlock block) (h : g.PartHolds k block level r) {r' : Role}
    (hr : r.IsReplaced → r' ≠ r) (tag : Text) (qualifiers : List Text) (content : Outline) :
    (g.takeRole tag qualifiers content r').PartHolds k block level r := by
  have hopen : ∀ d, (g.openBuffer d content).PartHolds k block level r := fun d => by
    left
    rw [openBuffer, outlines_setBuffer]
    exact h.closeBuffer hb
  -- other tags leave the buffer alone, so only the part itself matters
  have happend : ∀ g' : Gathering, g'.buffer = g.buffer →
      (SomeHolds k block level (g.outlines r) → SomeHolds k block level (g'.outlines r)) →
      g'.PartHolds k block level r := fun g' hbuffer hg' => by
    rw [PartHolds, hbuffer]
    exact h.imp_left hg'
  cases r' with
  | brief =>
    refine happend _ rfl fun hs => ?_
    cases r <;> try exact hs
    obtain ⟨o, ho, hblock⟩ := hs
    obtain ⟨b, hbrief⟩ : ∃ b, g.brief = some b := ⟨o, Option.mem_toList.1 ho⟩
    obtain rfl : b = o := Option.some.inj (hbrief.symm.trans (Option.mem_toList.1 ho))
    refine someHolds_singleton ?_
    rw [hbrief]
    exact holds_joinBrief_left hb hblock content
  | title =>
    refine happend _ rfl fun hs => ?_
    cases r <;> first | exact hs | exact absurd rfl (hr (.inl rfl))
  | deprecated =>
    refine happend _ rfl fun hs => ?_
    cases r <;> first | exact hs | exact absurd rfl (hr (.inr (.inl rfl)))
  | since =>
    refine happend _ rfl fun hs => ?_
    cases r <;> first | exact hs | exact absurd rfl (hr (.inr (.inr rfl)))
  | details => exact hopen .description
  | todo => exact hopen .todos
  | parameter | returnValue | throws =>
    simp only [Gathering.takeRole]
    split <;> refine happend _ rfl fun hs => ?_
    · cases r <;> try exact hs
      simp only [outlines, List.flatMap_append]
      exact SomeHolds.append_left hs _
    · cases r <;> exact hs
  | returns | note | warning =>
    refine happend _ rfl fun hs => ?_
    cases r <;> first | exact hs | exact hs.append_left _
  | code => exact h.takeCode content
  | endCode => exact h
  | unsupported => exact happend _ rfl fun hs => by cases r <;> exact hs

/-- A block in a part stays there, whatever is gathered after it, as long as its part is not
replaced. -/
theorem PartHolds.take (hb : IsBlock block) (h : g.PartHolds k block level r) {e : Element}
    (he : r.IsReplaced → e.role? ≠ some r) : (g.take e).PartHolds k block level r := by
  have hjoinable (b : Bool) : ({ g with joinable := b } : Gathering).PartHolds k block level r := by
    rwa [PartHolds, outlines_setJoinable]
  cases e with
  | tagged tag qualifiers content =>
    unfold Gathering.take
    simp only
    split
    · next r' hr' =>
      refine (hjoinable false).takeRole hb (fun hr heq => he hr ?_) tag qualifiers content
      rw [Element.role?, hr', heq]
    · exact hjoinable false
  | plain content => exact h.takeLine hb content
  | separator =>
    left
    rw [Gathering.take, takeSeparator, outlines_setJoinable]
    exact h.closeBuffer hb
  | groupOpen => exact h
  | groupClose => exact h
  | bareMarker => exact h

/-- The blocks of a line without a tag are held by the section that such lines go to. -/
theorem partHolds_takeLine (hg : g.All (FencedText k)) (hb : IsBlock block)
    (h : content.Holds k block level) :
    (g.takeLine content).PartHolds k block level g.linesGoTo := by
  have hkept : (content.isEmpty || isDecoration content) = false := by
    rw [h.isEmpty_eq hb, h.isDecoration_eq hb]
    rfl
  rcases hbuffer : g.buffer with _ | b
  · simp only [Gathering.takeLine, linesGoTo, hkept, hbuffer]
    exact .inl (someHolds_joinParagraph hg.description h _)
  · simp only [Gathering.takeLine, linesGoTo, hkept, hbuffer]
    exact .inr ⟨_, rfl, rfl, someHolds_joinParagraph (hg.buffer b hbuffer) h _⟩

theorem partHolds_takeCode (h : content.Holds k block level) :
    (g.takeCode content).PartHolds k block level g.linesGoTo := by
  have hconcat : ∀ os : List Outline, SomeHolds k block level (os ++ [content]) := fun os =>
    SomeHolds.append_right (someHolds_singleton h) os
  rcases hbuffer : g.buffer with _ | b
  · simp only [Gathering.takeCode, linesGoTo, hbuffer]
    exact .inl (hconcat _)
  · simp only [Gathering.takeCode, linesGoTo, hbuffer]
    exact .inr ⟨_, rfl, rfl, hconcat _⟩

/-- A block in what an element says comes to the part that the element goes to. -/
theorem partHolds_take (hg : g.All (FencedText k)) (hb : IsBlock block) {e : Element} {o : Outline}
    (hpart : g.partOf? e = some r) (hsaid : e.said? = some o) (h : o.Holds k block level) :
    (g.take e).PartHolds k block level r := by
  have hconcat : ∀ os : List Outline, SomeHolds k block level (os ++ [o]) := fun os =>
    SomeHolds.append_right (someHolds_singleton h) os
  cases e with
  | plain content =>
    obtain rfl := Option.some.inj hpart
    obtain rfl := Option.some.inj hsaid
    exact partHolds_takeLine hg hb h
  | tagged tag qualifiers content =>
    obtain ⟨r', hr', hpart⟩ := Option.map_eq_some_iff.1 hpart
    simp only [Gathering.take, hr']
    simp only [Element.said?, hr'] at hsaid
    cases r' with
    | code =>
      obtain rfl := Option.some.inj hsaid
      obtain rfl : g.linesGoTo = r := hpart
      exact partHolds_takeCode (g := { g with joinable := false }) h
    | endCode | unsupported => cases hsaid
    | parameter | returnValue | throws =>
      obtain ⟨⟨name, description⟩, hname, rfl⟩ := Option.bind_eq_some_iff.1 hsaid
      obtain rfl := hpart
      simp only [Gathering.takeRole, hname]
      left
      simp only [outlines, List.flatMap_append, List.flatMap_singleton]
      exact hconcat _
    | brief =>
      obtain rfl := Option.some.inj hsaid
      obtain rfl := hpart
      exact .inl (someHolds_singleton (holds_joinBrief_right hg.brief h))
    | deprecated =>
      obtain rfl := Option.some.inj hsaid
      obtain rfl := hpart
      left
      simp only [Gathering.takeRole, outlines, h.isEmpty_eq hb]
      exact someHolds_singleton h
    | details | todo =>
      obtain rfl := Option.some.inj hsaid
      obtain rfl := hpart
      exact .inr ⟨_, rfl, rfl, someHolds_singleton h⟩
    | title | since =>
      obtain rfl := Option.some.inj hsaid
      obtain rfl := hpart
      exact .inl (someHolds_singleton h)
    | returns | note | warning =>
      obtain rfl := Option.some.inj hsaid
      obtain rfl := hpart
      exact .inl (hconcat _)
  | _ => cases hpart

/-- **What is said is kept.** A block of code in what an element says is found in the part that the
element goes to, once everything is gathered, unless that part is replaced later on. -/
theorem exists_kept {before after : List Element} {e : Element} {o : Outline}
    (hall : ∀ f ∈ before, f.All (FencedText k))
    (hpart : (before.foldl Gathering.take {}).partOf? e = some r) (hsaid : e.said? = some o)
    (hlast : r.IsReplaced → ∀ f ∈ after, f.role? ≠ some r) (hb : IsBlock block)
    (h : o.Holds k block level) :
    SomeHolds k block level ((ofElements (before ++ e :: after)).outlines r) := by
  have hbefore : (before.foldl Gathering.take {}).All (FencedText k) :=
    all_foldl_take (fun _ _ => FencedText.append_break) hall
  have hafter : ∀ g : Gathering, g.PartHolds k block level r →
      (after.foldl Gathering.take g).PartHolds k block level r := by
    induction after with
    | nil => exact fun g hg => hg
    | cons f after ih =>
      intro g hg
      refine ih (fun hr f' hf' => hlast hr f' (List.mem_cons_of_mem _ hf')) (g.take f) ?_
      exact hg.take hb fun hr => hlast hr f List.mem_cons_self
  rw [ofElements, List.foldl_append, List.foldl_cons]
  exact (hafter _ (partHolds_take hbefore hb hpart hsaid h)).closeBuffer hb

/-- Whether an element goes to the description, after what was gathered before it: it says details,
or it is a line or code and no list of things to do is growing. -/
def Describes (g : Gathering) (e : Element) : Prop := g.partOf? e = some .details

theorem Describes.said?_eq {e : Element} (h : g.Describes e) : e.said? = e.content? := by
  cases e with
  | tagged tag qualifiers content =>
    obtain ⟨r', hr', hpart⟩ := Option.map_eq_some_iff.1 h
    simp only [Element.said?, hr']
    cases r' <;> first | rfl | cases hpart
  | plain content => rfl
  | _ => cases h

/-- What goes to the description is found in one of its paragraphs. -/
theorem exists_paragraph {before after : List Element} {e : Element}
    (hall : ∀ f ∈ before, f.All (FencedText k))
    (hd : (before.foldl Gathering.take {}).Describes e) (hb : IsBlock block)
    (he : e.Holds k block level) :
    SomeHolds k block level (ofElements (before ++ e :: after)).description := by
  obtain ⟨o, ho, hblock⟩ := he
  refine exists_kept hall hd (hd.said?_eq.trans ho) (fun hr => ?_) hb hblock
  rcases hr with hr | hr | hr <;> cases hr

end Gathering

end DoxygenMarkdown

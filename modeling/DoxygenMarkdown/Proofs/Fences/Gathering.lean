import DoxygenMarkdown.Documentation.Gathering
import DoxygenMarkdown.Proofs.Fences.Outline

/-!
# Gathering keeps texts whole

What is gathered of a comment is made of the texts of its elements. Two texts may become one, with a
line feed between them, and an entry with a name is split off it; nothing else is done to a text. So
what holds of all texts of the elements and survives a line feed between two of them, holds of all
texts that are gathered (`Gathering.all_ofElements`).
-/

namespace DoxygenMarkdown

variable {P : Text → Prop}

/-- A name and what stands behind it, as they were split off an outline. -/
def SplitOff (P : Text → Prop) (name : Text) (description : Option Outline) : Prop :=
  ∃ content : Outline, content.All P ∧ content.splitName? = some (name, description)

namespace Gathering

/-- Something holds of all texts that were gathered. -/
structure All (P : Text → Prop) (g : Gathering) : Prop where
  title : ∀ o ∈ g.title, o.All P
  brief : ∀ o ∈ g.brief, o.All P
  description : ∀ o ∈ g.description, o.All P
  parameters : ∀ p ∈ g.parameters, SplitOff P p.name p.description
  deprecated : ∀ d ∈ g.deprecated, ∀ o ∈ d.message, o.All P
  notes : ∀ o ∈ g.notes, o.All P
  warnings : ∀ o ∈ g.warnings, o.All P
  todos : ∀ o ∈ g.todos, o.All P
  returns : ∀ o ∈ g.returns, o.All P
  returnValues : ∀ v ∈ g.returnValues, SplitOff P v.name v.description
  throws : ∀ v ∈ g.throws, SplitOff P v.name v.description
  since : ∀ o ∈ g.since, o.All P
  buffer : ∀ b ∈ g.buffer, ∀ o ∈ b.paragraphs, o.All P

variable {g : Gathering} {content : Outline}

theorem forall_concat {α : Type} {Q : α → Prop} {xs : List α} {x : α} (h : ∀ y ∈ xs, Q y)
    (hx : Q x) : ∀ y ∈ xs ++ [x], Q y := by
  intro y hy
  rcases List.mem_append.1 hy with hy | hy
  · exact h y hy
  · exact List.mem_singleton.1 hy ▸ hx

/-- The paragraphs of the buffer go where they belong as they are; empty ones are left out. -/
theorem All.closeBuffer (h : g.All P) : g.closeBuffer.All P := by
  unfold Gathering.closeBuffer
  split
  · exact h
  · next b hb =>
    have hparagraphs : ∀ o ∈ b.paragraphs.filter (!·.isEmpty), o.All P := fun o ho =>
      h.buffer b hb o (List.mem_filter.1 ho).1
    have hnone : ∀ b ∈ (none : Option Buffer), ∀ o ∈ b.paragraphs, o.All P := by
      rintro b ⟨⟩
    split
    · exact { h with
        description := List.forall_mem_append.2 ⟨h.description, hparagraphs⟩
        buffer := hnone }
    · exact { h with
        todos := List.forall_mem_append.2 ⟨h.todos, hparagraphs⟩
        buffer := hnone }

/-- A buffer begins with the one text that opened it. -/
theorem All.openBuffer (h : g.All P) (hc : content.All P) (d : Destination) :
    (g.openBuffer d content).All P := by
  refine { h.closeBuffer with buffer := ?_ }
  rintro b ⟨⟩
  exact List.forall_mem_singleton.2 hc

/-- A block of code is a paragraph of its own, in the buffer or below the description. -/
theorem All.takeCode (h : g.All P) (hc : content.All P) : (g.takeCode content).All P := by
  unfold Gathering.takeCode
  split
  · next b hb =>
    refine { h with buffer := ?_ }
    rintro b' ⟨⟩
    exact forall_concat (h.buffer b hb) hc
  · exact { h with description := forall_concat h.description hc }

/-! ## Texts that are joined -/

variable (hP : ∀ t u : Text, P t → P u → P (t ++ '\n' :: u))

include hP

/-- Text that goes on with a paragraph stands on a new line of it. -/
theorem all_startLine {o : Outline}
    (ho : P o.top) (hc : content.All P) :
    Outline.All P { o.startLine content.top with sub := content.sub } := by
  refine ⟨?_, hc.sub⟩
  show P (o.startLine content.top).top
  unfold Outline.startLine
  split
  · exact hc.top
  · exact hP _ _ ho hc.top

/-- A line is added to the last paragraph or becomes one; the other paragraphs stay. -/
theorem all_joinParagraph {os : List Outline}
    (hos : ∀ o ∈ os, o.All P) (hc : content.All P) (join : Bool) :
    ∀ o ∈ joinParagraph os content join, o.All P := by
  unfold joinParagraph
  split
  · next last hlast =>
    split
    · refine forall_concat (fun o ho => hos o (List.dropLast_subset os ho)) ?_
      exact all_startLine hP (hos last (List.mem_of_getLast? hlast)).top hc
    · exact forall_concat hos hc
  · exact forall_concat hos hc

/-- A second brief goes on with the first, on a new line. -/
theorem all_joinBrief {b : Option Outline}
    (hb : ∀ o ∈ b, o.All P) (hc : content.All P) : (joinBrief b content).All P := by
  rcases b with _ | b
  · exact hc
  · have hb := hb b rfl
    refine ⟨hP _ _ hb.top hc.top, fun p hp => ?_⟩
    rcases List.mem_append.1 hp with hp | hp
    · exact hb.sub p hp
    · exact hc.sub p hp

/-- A line without a tag goes to the buffer or to the description, and only if it says something.
-/
theorem All.takeLine (h : g.All P)
    (hc : content.All P) : (g.takeLine content).All P := by
  unfold Gathering.takeLine
  split
  · exact h
  split
  · next b hb =>
    refine { h with buffer := ?_ }
    rintro b' ⟨⟩
    exact all_joinParagraph hP (h.buffer b hb) hc true
  · exact { h with description := all_joinParagraph hP h.description hc g.joinable }

/-- Every tag has one place where its text is put, whole or split into a name and the rest. -/
theorem All.takeRole (h : g.All P)
    (hc : content.All P) (tag : Text) (qualifiers : List Text) (r : Role) :
    (g.takeRole tag qualifiers content r).All P := by
  have hsome : ∀ {o : Outline}, o.All P → ∀ o' ∈ some o, o'.All P := by
    rintro o ho o' ⟨⟩
    exact ho
  cases r with
  | brief => exact { h with brief := hsome (all_joinBrief hP h.brief hc) }
  | title => exact { h with title := hsome hc }
  | deprecated =>
    refine { h with deprecated := ?_ }
    rintro d ⟨⟩ o ho
    simp only at ho
    split at ho
    · cases ho
    · exact hsome hc o ho
  | details => exact h.openBuffer hc .description
  | todo => exact h.openBuffer hc .todos
  | parameter =>
    simp only [Gathering.takeRole]
    split
    · next name description hname =>
      exact { h with parameters := forall_concat h.parameters ⟨content, hc, hname⟩ }
    · exact { h with }
  | returns => exact { h with returns := forall_concat h.returns hc }
  | returnValue =>
    simp only [Gathering.takeRole]
    split
    · next name description hname =>
      exact { h with returnValues := forall_concat h.returnValues ⟨content, hc, hname⟩ }
    · exact { h with }
  | throws =>
    simp only [Gathering.takeRole]
    split
    · next name description hname =>
      exact { h with throws := forall_concat h.throws ⟨content, hc, hname⟩ }
    · exact { h with }
  | note => exact { h with notes := forall_concat h.notes hc }
  | warning => exact { h with warnings := forall_concat h.warnings hc }
  | since => exact { h with since := hsome hc }
  | code => exact h.takeCode hc
  | endCode => exact h
  | unsupported => exact { h with }

/-- Taking in an element keeps what holds of all texts. -/
theorem All.take (h : g.All P) {e : Element} (he : e.All P) : (g.take e).All P := by
  cases e with
  | tagged tag qualifiers content =>
    have h' : Gathering.All P { g with joinable := false } := { h with }
    have hc : content.All P := he content rfl
    simp only [Gathering.take]
    split
    · exact h'.takeRole hP hc _ _ _
    · exact h'
  | plain content => exact h.takeLine hP (he content rfl)
  | separator => exact { h.closeBuffer with }
  | groupOpen => exact h
  | groupClose => exact h
  | bareMarker => exact h

theorem all_foldl_take {es : List Element} (hes : ∀ e ∈ es, e.All P) :
    (es.foldl Gathering.take {}).All P := by
  have hinit : Gathering.All P {} := by
    constructor <;> rintro o ⟨⟩
  have hfold : ∀ g : Gathering, g.All P → (es.foldl Gathering.take g).All P := by
    induction es with
    | nil => exact fun g hg => hg
    | cons e es ih =>
      intro g hg
      exact ih (fun f hf => hes f (List.mem_cons_of_mem _ hf)) (g.take e)
        (hg.take hP (hes e List.mem_cons_self))
  exact hfold {} hinit

/-- **Gathering keeps texts whole.** -/
theorem all_ofElements {es : List Element} (hes : ∀ e ∈ es, e.All P) : (ofElements es).All P :=
  (all_foldl_take hP hes).closeBuffer

end Gathering

end DoxygenMarkdown

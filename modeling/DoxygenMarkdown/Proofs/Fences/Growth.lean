import DoxygenMarkdown.Proofs.Comment.Settled

/-!
# Elements only grow

What was read of a comment is never taken back. A line puts an element below the others, or it
changes one node of the last element, and there it only adds: an item as the last one, more text
behind the text, or a line below it (`Outline.Growth`). So a state that comes later is reached from
an earlier one by such steps alone (`grows_readLines`), and whatever they leave in place stays
(`Grows.of_kept`).
-/

namespace DoxygenMarkdown

/-- The ways to add something to a node. -/
inductive Outline.Growth : (Outline → Outline) → Prop
  | addItem (t : Text) : Growth (Outline.addItem t)
  | continueWith (t : Text) : Growth (Outline.continueWith t)
  | addLine (t : Text) : Growth (Outline.addLine t)
  | startLine (t : Text) : Growth (Outline.startLine t)

namespace Comment

/-- Elements, the last one first, that are made of others by putting elements on top and by adding
something to the one on top. -/
inductive Grows (es : List Element) : List Element → Prop
  | refl : Grows es es
  | push {fs : List Element} (h : Grows es fs) (e : Element) : Grows es (e :: fs)
  | modify {fs : List Element} {e : Element} (h : Grows es (e :: fs)) (depth : Nat)
    {f : Outline → Outline} (hf : Outline.Growth f) :
    Grows es (e.mapContent (Outline.modifyEdge f depth) :: fs)

theorem Grows.trans {es fs gs : List Element} (h : Grows es fs) (h' : Grows fs gs) :
    Grows es gs := by
  induction h' with
  | refl => exact h
  | push _ e ih => exact ih.push e
  | modify _ depth hf ih => exact ih.modify depth hf

/-- What stays true of an element, whatever is added to it. -/
def Kept (P : Element → Prop) : Prop :=
  ∀ e, P e → ∀ depth f, Outline.Growth f → P (e.mapContent (Outline.modifyEdge f depth))

/-- An element stays where it is, and so does what is kept of it, whatever comes above it. -/
theorem Grows.of_kept {P : Element → Prop} (hP : Kept P) {e : Element} {older fs : List Element}
    (h : Grows (e :: older) fs) (he : P e) :
    ∃ newer e', fs = newer ++ e' :: older ∧ P e' := by
  induction h with
  | refl => exact ⟨[], e, rfl, he⟩
  | push _ e₁ ih =>
    obtain ⟨newer, e', rfl, he'⟩ := ih
    exact ⟨e₁ :: newer, e', rfl, he'⟩
  | @modify fs e₁ _ depth f hf ih =>
    obtain ⟨newer, e', hfs, he'⟩ := ih
    cases newer with
    | nil =>
      obtain ⟨rfl, rfl⟩ := List.cons.inj hfs
      exact ⟨[], _, rfl, hP e₁ he' depth f hf⟩
    | cons e₂ newer =>
      obtain ⟨rfl, rfl⟩ := List.cons.inj hfs
      exact ⟨_ :: newer, e', rfl, he'⟩

namespace State

variable {s s' : State} {es : List Element}

/-- Only the text of the last element grows. -/
theorem grows_modifyLast (h : Grows es s.elements) (depth : Nat) {f : Outline → Outline}
    (hf : Outline.Growth f) : Grows es (s.modifyLast depth f).elements := by
  obtain ⟨_ | ⟨e, es⟩, nesting, code⟩ := s
  · exact h
  · exact h.modify depth hf

/-- A line is a new element or goes on with the last one. -/
theorem grows_takeLine {line : Text} {depth : Option Nat}
    (h : s.takeLine line = .ok (s', depth)) : Grows s.elements s'.elements := by
  obtain ⟨e, -, rfl, -⟩ | ⟨t, rfl, -⟩ | ⟨-, t, f, hf, rfl⟩ := takeLine_cases h
  · exact Grows.refl.push e
  · exact Grows.refl.push _
  · have henter : Grows s.elements (s.enter line.indentation).elements := .refl
    rcases hf with rfl | rfl
    · exact grows_modifyLast henter _ (.addItem t)
    · exact grows_modifyLast henter _ (.continueWith t)

theorem grows_beginCodeAt (s : State) (opening : Opening) (indent : Nat) (depth : Option Nat) :
    Grows s.elements (s.beginCodeAt opening indent depth).elements := by
  cases depth with
  | none => exact Grows.refl.push _
  | some depth => exact grows_modifyLast Grows.refl depth (.startLine opening.text)

/-- A line that opens a block adds the words in front of it and then the block. -/
theorem grows_beginCode {line before opener : Text} (h : s.beginCode line before opener = .ok s') :
    Grows s.elements s'.elements := by
  obtain ⟨s₁, depth, rfl, ⟨-, rfl, -⟩ | ⟨-, -, rfl⟩ | ⟨-, hl⟩⟩ := beginCode_cases h
  · exact grows_beginCodeAt _ _ _ _
  · exact grows_beginCodeAt (s.enter line.indentation) _ _ _
  · exact (grows_takeLine hl).trans (grows_beginCodeAt s₁ _ _ _)

theorem grows_closeCode (s : State) (block : CodeBlock) :
    Grows s.elements (s.closeCode block).elements :=
  grows_modifyLast Grows.refl block.depth (.addLine _)

/-- Ending a block that stands alone adds the element for its end. -/
theorem grows_endCode (s : State) (block : CodeBlock) :
    Grows (s.closeCode block).elements (s.endCode block).elements := by
  rw [endCode]
  split
  · exact Grows.refl.push _
  · exact .refl

/-- **A line only adds to what was read.** -/
theorem grows_step {raw : Text} (h : s.step raw = .ok s') : Grows s.elements s'.elements := by
  cases stepsTo_of_step h with
  | line _ _ _ hl => exact grows_takeLine hl
  | opens _ _ _ _ hb => exact grows_beginCode hb
  | closes block _ _ hs' =>
    rw [hs']
    exact (grows_closeCode s block).trans (grows_endCode s block)
  | code block _ _ hs' =>
    rw [hs']
    exact grows_modifyLast Grows.refl block.depth (.addLine _)

end State

/-- All lines together only add to what was read. -/
theorem grows_readLines {s s' : State} {ls : List Text} (h : readLines s ls = .ok s') :
    Grows s.elements s'.elements := by
  induction ls generalizing s with
  | nil =>
    cases h
    exact .refl
  | cons l ls ih =>
    obtain ⟨s₁, hl, h⟩ := exists_of_readLines_cons h
    exact (State.grows_step hl).trans (ih h)

end Comment

end DoxygenMarkdown

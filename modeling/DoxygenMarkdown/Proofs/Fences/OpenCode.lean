import DoxygenMarkdown.Proofs.Fences.Growth
import DoxygenMarkdown.Proofs.Fences.Reading

/-!
# Where code is open

A block of code is collected in a text of the last element, so while code is open that element has a
text (`State.HoldsCode`). What is added to the block is added there, and is not lost.
-/

namespace DoxygenMarkdown.Comment

namespace State

variable {s s' : State}

/-- The last element has a text. -/
def HasText (s : State) : Prop := ∃ e es o, s.elements = e :: es ∧ e.content? = some o

/-- An element that takes indented lines takes them into a text. -/
theorem hasText_of_takesLines (h : s.takesLines = true) : s.HasText := by
  obtain ⟨_ | ⟨e, es⟩, nesting, code⟩ := s
  · cases h
  · cases e with
    | tagged tag qualifiers content => exact ⟨_, _, _, rfl, rfl⟩
    | plain content => exact ⟨_, _, _, rfl, rfl⟩
    | _ => cases h

/-- Changing the text of the last element leaves it a text. -/
theorem HasText.modifyLast (h : s.HasText) (depth : Nat) (f : Outline → Outline) :
    (s.modifyLast depth f).HasText := by
  obtain ⟨e, es, o, he, ho⟩ := h
  refine ⟨e.mapContent (Outline.modifyEdge f depth), es, Outline.modifyEdge f depth o, ?_, ?_⟩
  · rw [State.modifyLast, he]
  · cases e <;> cases ho <;> rfl

/-- A line that code can go on in, at some depth, was taken into the text of the last element. -/
theorem hasText_takeLine {line : Text} {depth : Option Nat}
    (h : s.takeLine line = .ok (s', depth)) (hdepth : depth ≠ none) : s'.HasText := by
  obtain ⟨e, -, rfl, rfl⟩ | ⟨t, rfl, -⟩ | ⟨htakes, t, f, -, rfl⟩ := takeLine_cases h
  · obtain ⟨d, hd⟩ := Option.ne_none_iff_exists'.1 hdepth
    obtain ⟨o, ho⟩ := Option.isSome_iff_exists.1 (Option.ite_none_right_eq_some.1 hd).1
    exact ⟨e, s.elements, o, rfl, ho⟩
  · exact ⟨_, _, _, rfl, rfl⟩
  · have henter : (s.enter line.indentation).HasText := hasText_of_takesLines htakes
    exact henter.modifyLast _ _

/-- Code that is open lies in a text. -/
def HoldsCode (s : State) : Prop := s.code ≠ none → s.HasText

theorem holdsCode_init : HoldsCode {} := fun h => absurd rfl h

/-- A block lies in a text, be it one that was there or one of its own. -/
theorem hasText_beginCodeAt {depth : Option Nat} (h : depth ≠ none → s.HasText) (opening : Opening)
    (indent : Nat) : (s.beginCodeAt opening indent depth).HasText := by
  cases depth with
  | some depth => exact (h (Option.some_ne_none _)).modifyLast depth _
  | none => exact ⟨_, _, _, rfl, rfl⟩

/-- Wherever a line opens a block, the block is put into a text. -/
theorem hasText_beginCode {line before opener : Text}
    (h : s.beginCode line before opener = .ok s') : s'.HasText := by
  obtain ⟨s₁, depth, rfl, ⟨-, rfl, rfl⟩ | ⟨-, htakes, rfl⟩ | ⟨-, hl⟩⟩ := beginCode_cases h
  · exact hasText_beginCodeAt (fun hnone => absurd rfl hnone) _ _
  · have henter : (s.enter line.indentation).HasText := hasText_of_takesLines htakes
    exact hasText_beginCodeAt (fun _ => henter) _ _
  · exact hasText_beginCodeAt (hasText_takeLine hl) _ _

/-- Code that is open lies in a text, after every line if it did before. -/
theorem holdsCode_step {raw : Text} (hs : s.HoldsCode) (h : s.step raw = .ok s') :
    s'.HoldsCode := by
  cases stepsTo_of_step h with
  | line hc _ _ hl => exact fun hcode => absurd ((takeLine_code hl).trans hc) hcode
  | opens _ _ _ _ hb => exact fun _ => hasText_beginCode hb
  | closes block _ _ hs' =>
    rw [hs']
    exact fun hcode => absurd (endCode_code s block) hcode
  | code block hc _ hs' =>
    have htext : s.HasText := hs (by rw [hc]; exact Option.some_ne_none _)
    rw [hs']
    exact fun _ => htext.modifyLast _ _

/-- Closing the block that is open adds to the elements and takes nothing away. -/
theorem grows_closed (s : State) : Grows s.elements s.closed.elements := by
  unfold closed
  split
  · next block _ => exact grows_closeCode s block
  · exact .refl

end State

end DoxygenMarkdown.Comment

import DoxygenMarkdown.Proofs.Comment.Step

/-!
# Where a comment can be cut

Three things tie a line to the lines before it: the last element, which an indented line may go on
with; the columns that are open; and a block of code that is open. A state is *settled*
(`State.Settled`) if there is none of them. From there on a comment is read as if it began there:
what was read before stays as it is, and what comes is not changed by it
(`State.Settled.finish_readLines`).

The proof compares two readers that take in the same lines, one of which has read some elements
before (`State.above`). They stay in step line by line (`State.step_above`), because each of them
only ever changes elements of its own: an indented line could go to one that was read before only as
long as there is none of its own, and then that one is closed (`State.Closed`). For lines of code
that needs an invariant: a block of code that is open lies in an element that was read
(`State.Grounded`).
-/

namespace DoxygenMarkdown.Comment

namespace State

variable {base : List Element}

/-! ## Two readers -/

/-- A state in which some elements, the last one first, were read before. -/
def above (s : State) (base : List Element) : State :=
  { s with elements := s.elements ++ base }

/-- Elements to which no indented line can be added. -/
def Closed (base : List Element) : Prop := ∀ e ∈ base.head?, e.takesLines = false

/-- Code that is open lies in an element that was read. -/
def Grounded (s : State) : Prop := s.code ≠ none → s.elements ≠ []

theorem modifyLast_ne_nil {s : State} (h : s.elements ≠ []) (depth : Nat) (f : Outline → Outline) :
    (s.modifyLast depth f).elements ≠ [] := by
  obtain ⟨_ | ⟨e, es⟩, nesting, code⟩ := s
  · exact absurd rfl h
  · exact List.cons_ne_nil _ _

/-- What is changed in the last element of a reader is changed in one of its own. -/
theorem modifyLast_above {s : State} (h : s.elements ≠ []) (depth : Nat) (f : Outline → Outline) :
    (s.above base).modifyLast depth f = (s.modifyLast depth f).above base := by
  obtain ⟨_ | ⟨e, es⟩, nesting, code⟩ := s
  · exact absurd rfl h
  · rfl

theorem ne_nil_of_takesLines {s : State} (h : s.takesLines = true) : s.elements ≠ [] := by
  intro hs
  simp [takesLines, hs] at h

/-- An indented line finds the same element, as one that was read before takes none. -/
theorem takesLines_above {s : State} (hb : s.elements = [] → Closed base) :
    (s.above base).takesLines = s.takesLines := by
  obtain ⟨_ | ⟨e, es⟩, nesting, code⟩ := s
  · -- nothing was read yet, so the line could only go to what was read before
    cases base with
    | nil => rfl
    | cons e es => exact hb rfl e rfl
  · rfl

/-! ## Lines outside code -/

/-- Both readers put an indented line in the same place. -/
theorem takeIndented_above {s : State} (hb : s.elements = [] → Closed base) (l : IndentedLine) :
    (s.above base).takeIndented l =
      ((s.takeIndented l).1.above base, (s.takeIndented l).2) := by
  by_cases h : s.takesLines = true
  · have hs : (s.enter l.indent).elements ≠ [] := ne_nil_of_takesLines h
    have h' : (s.above base).takesLines = true := by rwa [takesLines_above hb]
    have he : (s.above base).enter l.indent = (s.enter l.indent).above base := rfl
    by_cases hl : l.isItem = true
    · rw [takeIndented_of_item h hl, takeIndented_of_item h' hl, he, modifyLast_above hs]
      rfl
    · rw [takeIndented_of_text h hl, takeIndented_of_text h' hl, he, modifyLast_above hs]
      rfl
  · have h' : ¬ (s.above base).takesLines = true := by rwa [takesLines_above hb]
    rw [takeIndented_of_element h, takeIndented_of_element h']
    rfl

/-- A line that is taken in leaves something that was read. -/
theorem takeLine_ne_nil {s s' : State} {line : Text} {depth : Option Nat}
    (h : s.takeLine line = .ok (s', depth)) : s'.elements ≠ [] := by
  obtain ⟨e, -, rfl, -⟩ | ⟨t, rfl, -⟩ | ⟨htakes, t, f, -, rfl⟩ := takeLine_cases h
  · exact List.cons_ne_nil _ _
  · exact List.cons_ne_nil _ _
  · have henter : (s.enter line.indentation).elements ≠ [] := ne_nil_of_takesLines htakes
    exact modifyLast_ne_nil henter _ _

/-- Both readers take in a line outside of code in the same way. -/
theorem takeLine_above {s : State} (hb : s.elements = [] → Closed base) (line : Text) :
    (s.above base).takeLine line = (fun p => (p.1.above base, p.2)) <$> s.takeLine line := by
  rcases hl : readLine line with e | ⟨e | l⟩
  · rw [takeLine_of_error hl, takeLine_of_error hl]
    rfl
  · rw [takeLine_of_element hl, takeLine_of_element hl]
    rfl
  · rw [takeLine_of_indented hl, takeLine_of_indented hl, takeIndented_above hb]
    rfl

/-! ## Lines that open code, and lines of code -/

/-- Both readers put a block in the same place, if it is put into an element that was read. -/
theorem beginCodeAt_above {s : State} {depth : Option Nat} (h : depth ≠ none → s.elements ≠ [])
    (opening : Opening) (indent : Nat) :
    (s.above base).beginCodeAt opening indent depth =
      (s.beginCodeAt opening indent depth).above base := by
  cases depth with
  | none => rfl
  | some depth =>
    rw [beginCodeAt, beginCodeAt, modifyLast_above (h (Option.some_ne_none _))]
    rfl

/-- A block of code is an element or lies in one. -/
theorem beginCodeAt_ne_nil {s : State} {depth : Option Nat} (h : depth ≠ none → s.elements ≠ [])
    (opening : Opening) (indent : Nat) : (s.beginCodeAt opening indent depth).elements ≠ [] := by
  cases depth with
  | none => exact List.cons_ne_nil _ _
  | some depth => exact modifyLast_ne_nil (h (Option.some_ne_none _)) _ _

/-- Both readers open a block in the same way, alone on its line, behind words or indented. -/
theorem beginCode_above {s : State} (hb : s.elements = [] → Closed base)
    (line before opener : Text) :
    (s.above base).beginCode line before opener =
      (·.above base) <$> s.beginCode line before opener := by
  by_cases hw : before = []
  · subst hw
    by_cases hi : line.indentation ≠ 0 ∧ s.takesLines = true
    · have hi' : line.indentation ≠ 0 ∧ (s.above base).takesLines = true := by
        rwa [takesLines_above hb]
      have hs : (s.enter line.indentation).elements ≠ [] := ne_nil_of_takesLines hi.2
      rw [beginCode_of_indented hi, beginCode_of_indented hi']
      exact congrArg Except.ok (beginCodeAt_above (fun _ => hs) _ _)
    · have hi' : ¬(line.indentation ≠ 0 ∧ (s.above base).takesLines = true) := by
        rwa [takesLines_above hb]
      rw [beginCode_of_element hi, beginCode_of_element hi']
      exact congrArg Except.ok (beginCodeAt_above (fun h => absurd rfl h) _ _)
  · rw [beginCode_of_words hw, beginCode_of_words hw, takeLine_above hb]
    rcases hl : s.takeLine (line.take line.indentation ++ before) with e | ⟨s', depth⟩
    · rfl
    · exact congrArg Except.ok (beginCodeAt_above (fun _ => takeLine_ne_nil hl) _ _)

theorem beginCode_ne_nil {s s' : State} {line before opener : Text}
    (h : s.beginCode line before opener = .ok s') : s'.elements ≠ [] := by
  obtain ⟨s₁, depth, rfl, ⟨-, rfl, rfl⟩ | ⟨-, htakes, rfl⟩ | ⟨-, hl⟩⟩ := beginCode_cases h
  · exact beginCodeAt_ne_nil (fun h => absurd rfl h) _ _
  · have henter : (s.enter line.indentation).elements ≠ [] := ne_nil_of_takesLines htakes
    exact beginCodeAt_ne_nil (fun _ => henter) _ _
  · exact beginCodeAt_ne_nil (fun _ => takeLine_ne_nil hl) _ _

/-- A line of code goes to the element that holds the block, which is the reader's own. -/
theorem addCode_above {s : State} (h : s.elements ≠ []) (block : CodeBlock) (raw : Text) :
    (s.above base).addCode block raw = (s.addCode block raw).above base := modifyLast_above h _ _

theorem closeCode_above {s : State} (h : s.elements ≠ []) (block : CodeBlock) :
    (s.above base).closeCode block = (s.closeCode block).above base := by
  rw [closeCode, closeCode, modifyLast_above h]
  rfl

/-- A block is closed where it was opened. -/
theorem endCode_above {s : State} (h : s.elements ≠ []) (block : CodeBlock) :
    (s.above base).endCode block = (s.endCode block).above base := by
  rw [endCode, endCode, closeCode_above h]
  cases block.standalone <;> rfl

theorem endCode_code (s : State) (block : CodeBlock) : (s.endCode block).code = none := by
  rw [endCode]
  cases block.standalone <;> rfl

/-! ## All lines -/

/-- **Two readers stay in step**, one line at a time. -/
theorem step_above {s : State} (hb : s.elements = [] → Closed base) (hs : s.Grounded) (raw : Text) :
    (s.above base).step raw = (·.above base) <$> s.step raw := by
  have hcode : (s.above base).code = s.code := rfl
  rcases hc : s.code with _ | block
  · rcases ho : openCode? (dropStar raw) with _ | ⟨before, opener⟩
    · rw [step_of_plain (hcode.trans hc) ho, step_of_plain hc ho, takeLine_above hb]
      rcases s.takeLine (dropStar raw) with e | ⟨s', depth⟩ <;> rfl
    · rw [step_of_opens (hcode.trans hc) ho, step_of_opens hc ho]
      exact beginCode_above hb _ _ _
  · -- the line goes to the element that holds the block
    have hne : s.elements ≠ [] := hs (by simp [hc])
    rw [step_of_code (hcode.trans hc), step_of_code hc, endCode_above hne, addCode_above hne]
    exact congrArg Except.ok (apply_ite (above · base) _ _ _).symm

/-- A line leaves something that was read. -/
theorem step_ne_nil {s s' : State} (hs : s.Grounded) {raw : Text} (h : s.step raw = .ok s') :
    s'.elements ≠ [] := by
  cases stepsTo_of_step h with
  | line _ _ _ hl => exact takeLine_ne_nil hl
  | opens _ _ _ _ hb => exact beginCode_ne_nil hb
  | closes block hc _ hs' =>
    have hne : s.elements ≠ [] := hs (by simp [hc])
    rw [hs', endCode]
    split
    · exact List.cons_ne_nil _ _
    · exact modifyLast_ne_nil hne _ _
  | code block hc _ hs' =>
    -- a line of code changes the element that holds the block, and takes none away
    have hne : s.elements ≠ [] := hs (by simp [hc])
    rw [hs']
    exact modifyLast_ne_nil hne _ _

/-- Code that a line opens lies in an element that was read by then. -/
theorem step_grounded {s s' : State} (hs : s.Grounded) {raw : Text} (h : s.step raw = .ok s') :
    s'.Grounded := fun _ => step_ne_nil hs h

/-- Readers that have read different things before stay in step over all lines. -/
theorem readLines_above {s : State} (hb : s.elements = [] → Closed base) (ls : List Text)
    (hs : s.Grounded) :
    readLines (s.above base) ls = (·.above base) <$> readLines s ls := by
  induction ls generalizing s with
  | nil => rfl
  | cons l ls ih =>
    rw [readLines_cons, readLines_cons, step_above hb hs]
    rcases hl : s.step l with e | s'
    · rfl
    · -- the readers are in step after this line, and the invariant holds for the next
      exact ih (fun h => absurd h (step_ne_nil hs hl)) (step_grounded hs hl)

theorem readLines_grounded {ls : List Text} {s s' : State} (hs : s.Grounded)
    (h : readLines s ls = .ok s') : s'.Grounded := by
  induction ls generalizing s with
  | nil =>
    cases h
    exact hs
  | cons l ls ih =>
    rw [readLines_cons] at h
    rcases hl : s.step l with e | s₁
    · rw [hl] at h
      cases h
    · rw [hl] at h
      exact ih (step_grounded hs hl) h

/-- At the end a reader gives what was read before, and then what it read itself. -/
theorem finish_above {s : State} (hs : s.Grounded) :
    (s.above base).finish = base.reverse ++ s.finish := by
  have hcode : (s.above base).code = s.code := rfl
  rcases hc : s.code with _ | block
  · rw [finish_of_code_eq_none (hcode.trans hc), finish_of_code_eq_none hc, above,
      List.reverse_append, List.append_assoc]
  · have hne : s.elements ≠ [] := hs (by simp [hc])
    rw [finish_of_code (hcode.trans hc), finish_of_code hc, closeCode_above hne, above,
      List.reverse_append, List.append_assoc]

/-! ## Settled states -/

/-- A state from which on nothing joins what was read before. -/
structure Settled (s : State) : Prop where
  nesting_eq : s.nesting = {}
  code_eq : s.code = none
  takesLines_eq : s.takesLines = false

/-- A separator settles everything outside of code. -/
theorem settled_push_separator {s : State} (hc : s.code = none) : (s.push .separator).Settled :=
  ⟨rfl, hc, rfl⟩

theorem grounded_init : Grounded {} := fun h => absurd rfl h

theorem Settled.eq_above {s : State} (hs : s.Settled) : s = above {} s.elements := by
  obtain ⟨elements, nesting, code⟩ := s
  obtain ⟨hn, hc, -⟩ := hs
  simp only at hn hc
  rw [hn, hc]
  rfl

theorem Settled.closed {s : State} (hs : s.Settled) : Closed s.elements := by
  have h := hs.takesLines_eq
  intro e he
  unfold takesLines at h
  rcases hes : s.elements with _ | ⟨e', es⟩
  · rw [hes] at he
    cases he
  · rw [hes] at h he
    obtain rfl : e' = e := Option.some.inj he
    exact h

/-- After a settled state, lines are read as if a comment began with them. -/
theorem Settled.finish_readLines {s : State} (hs : s.Settled) (ls : List Text) :
    finish <$> readLines s ls =
      (s.elements.reverse ++ ·) <$> (finish <$> readLines {} ls) := by
  have h := readLines_above (fun _ => hs.closed) ls grounded_init
  rw [← hs.eq_above] at h
  rw [h]
  rcases hl : readLines {} ls with e | s'
  · rfl
  · exact congrArg Except.ok (finish_above (readLines_grounded grounded_init hl))

end State

/-- A comment that begins with the lines of one that cannot be read cannot be read either. -/
theorem elements_of_prefix_error {a t : Text} {e : DirectionError} {ms : List Text}
    (ht : sourceLines t = sourceLines a ++ ms) (ha : stateAfter a = .error e) :
    elements t = .error e := by
  apply elements_of_error
  rw [stateAfter, ht]
  exact readLines_append_of_error ha ms

/-- Below lines that settle the state, a comment says what it says by itself. -/
theorem elements_of_settled {t b : Text} {ls : List Text} {s : State}
    (ht : sourceLines t = ls ++ sourceLines b) (hs : readLines {} ls = .ok s)
    (hset : s.Settled) : elements t = (s.elements.reverse ++ ·) <$> elements b := by
  rw [elements_eq, stateAfter, ht, readLines_append_of_ok hs]
  exact hset.finish_readLines (sourceLines b)

end DoxygenMarkdown.Comment

import DoxygenMarkdown.Proofs.Comment.Step
import DoxygenMarkdown.Proofs.Sections.Parts
import DoxygenMarkdown.Proofs.Text.Words

/-!
# Groups of lines

A *group* is a line with a tag and the indented lines below it (`Group`). The lines of a group hang
together: the first one ends whatever came before, and the others go on with the group. So a group
is read as one element, the same wherever it stands (`readLines_group`).

A comment is *laid out* in groups (`IsLaidOut`) if there is nothing else in it but blank lines,
anywhere around the groups. It is read as the elements of its groups, with elements between them
that only separate (`elements_of_isLaidOut`).
-/

namespace DoxygenMarkdown.Element

/-- An element with another content, if it has any. -/
def withContent (e : Element) (o : Outline) : Element := e.mapContent fun _ => o

theorem takesLines_withContent (e : Element) (o : Outline) :
    (e.withContent o).takesLines = e.takesLines := by
  cases e <;> rfl

theorem withContent_eq_self {e : Element} {o : Outline} (h : e.content? = some o) :
    e.withContent o = e := by
  cases e <;> cases h <;> rfl

theorem mapContent_withContent (e : Element) (f : Outline → Outline) (o : Outline) :
    (e.withContent o).mapContent f = e.withContent (f o) := by
  cases e <;> rfl

end DoxygenMarkdown.Element

namespace DoxygenMarkdown.Comment

/-- Whether tokens begin with a marker that introduces no word: it stands by itself, or before a
brace. -/
def leadsNowhere : List Token → Bool
  | [⟨.marker, _⟩] => true
  | ⟨.marker, _⟩ :: ⟨.blank, _⟩ :: _ => true
  | ⟨.marker, _⟩ :: ⟨.brace, _⟩ :: _ => true
  | _ => false

/-- A line that goes on with the line before it, as more text or as a bullet: it is indented, it is
not blank (a star by itself is), it opens no code, and it is no marker that introduces nothing. -/
structure IsContinuation (l : Text) : Prop where
  indentation_ne : (dropStar l).indentation ≠ 0
  allBlank_eq : (dropStar l).allBlank = false
  openCode?_eq : openCode? (dropStar l) = none
  leadsNowhere_eq : leadsNowhere (Token.scan (dropStar l).trim) = false

instance (l : Text) : Decidable (IsContinuation l) :=
  decidable_of_iff
    ((dropStar l).indentation ≠ 0 ∧ (dropStar l).allBlank = false ∧
      openCode? (dropStar l) = none ∧ leadsNowhere (Token.scan (dropStar l).trim) = false)
    ⟨fun ⟨hi, hb, ho, hn⟩ => ⟨hi, hb, ho, hn⟩, fun h => ⟨h.1, h.2, h.3, h.4⟩⟩

/-- A line with a tag other than those for code, and the lines that go on with it. -/
structure Group where
  /-- The line with the tag. -/
  head : Text
  /-- The lines that go on with it. -/
  below : List Text
  tag : Text
  qualifiers : List Text
  /-- What the first line says after the tag. -/
  text : Text
  /-- The section that the group belongs to. Tags with the same role belong to the same one. -/
  role : Role
  role?_tag : Tag.role? tag = some role
  role_ne_code : role ≠ .code
  role_ne_endCode : role ≠ .endCode
  openCode?_head : openCode? (dropStar head) = none
  readLine_head : readLine (dropStar head) = .ok (.element (.tagged tag qualifiers (.leaf text)))
  isContinuation : ∀ l ∈ below, IsContinuation l

/-- Go on with an outline, in which some columns are open, by an indented line. -/
def goOn (p : Outline × Nesting) (l : IndentedLine) : Outline × Nesting :=
  let nesting := p.2.enter l.indent
  let change := if l.isItem then Outline.addItem l.text else Outline.continueWith l.text
  (p.1.modifyEdge change nesting.depth, nesting)

namespace Group

/-- The lines of a group. -/
def lines (g : Group) : List Text := g.head :: g.below

/-- The indented lines of a group. -/
def indented (g : Group) : List IndentedLine := g.below.map fun l => readIndented (dropStar l)

/-- All that a group says, and the columns that are open after it. -/
def outline (g : Group) : Outline × Nesting := g.indented.foldl goOn (.leaf g.text, {})

/-- The element that a group is read as. -/
def element (g : Group) : Element := .tagged g.tag g.qualifiers g.outline.1

theorem role?_element (g : Group) : g.element.role? = some g.role := g.role?_tag

theorem isSorted_element (g : Group) : g.element.IsSorted := ⟨g.role, g.role?_tag, g.role_ne_code⟩

theorem element_ne_separator (g : Group) : g.element ≠ .separator := Element.noConfusion

theorem takesLines_tagged (g : Group) (o : Outline) :
    (Element.tagged g.tag g.qualifiers o).takesLines = true := by
  have hcode : g.tag ≠ Tag.code := by
    intro h
    have hrole := g.role?_tag
    rw [h] at hrole
    exact g.role_ne_code (Option.some.inj hrole).symm
  have hend : g.tag ≠ Tag.endCode := by
    intro h
    have hrole := g.role?_tag
    rw [h] at hrole
    exact g.role_ne_endCode (Option.some.inj hrole).symm
  simp [Element.takesLines, hcode, hend]

end Group

/-! ## Reading a group -/

theorem leadsNowhere_of_head? {tokens : List Token}
    (h : ∀ token ∈ tokens.head?, token.kind ≠ .marker) : leadsNowhere tokens = false := by
  unfold leadsNowhere
  split
  · exact absurd rfl (h _ rfl)
  · exact absurd rfl (h _ rfl)
  · exact absurd rfl (h _ rfl)
  · rfl

/-- Indented text is no element by itself. -/
theorem readLine_of_indentation_ne {line : Text} (hindent : line.indentation ≠ 0)
    (hblank : line.allBlank = false) (hnowhere : leadsNowhere (Token.scan line.trim) = false) :
    readLine line = .ok (.indented (readIndented line)) := by
  rw [readLine, hblank, if_neg Bool.false_ne_true, readTokens.eq_def]
  -- the tokens are none of the three that count however far they are indented
  split
  · next hscan => rw [hscan] at hnowhere; cases hnowhere
  · next hscan => rw [hscan] at hnowhere; cases hnowhere
  · next hscan => rw [hscan] at hnowhere; cases hnowhere
  · rw [if_pos hindent]

theorem readLine_of_isContinuation {l : Text} (h : IsContinuation l) :
    readLine (dropStar l) = .ok (.indented (readIndented (dropStar l))) :=
  readLine_of_indentation_ne h.indentation_ne h.allBlank_eq h.leadsNowhere_eq

namespace State

/-- A change of the last element is a change of its outline. -/
theorem modifyLast_withContent (e : Element) (o : Outline) (es : List Element) (n : Nesting)
    (code : Option CodeBlock) (depth : Nat) (f : Outline → Outline) :
    modifyLast ⟨e.withContent o :: es, n, code⟩ depth f =
      ⟨e.withContent (o.modifyEdge f depth) :: es, n, code⟩ :=
  congrArg (fun e' => State.mk (e' :: es) n code) (e.mapContent_withContent _ o)

/-- Below an element that takes lines, an indented line changes that element and nothing else. -/
theorem takeIndented_goOn {e : Element} (htakes : e.takesLines = true) (p : Outline × Nesting)
    (es : List Element) (l : IndentedLine) :
    (takeIndented ⟨e.withContent p.1 :: es, p.2, none⟩ l).1 =
      ⟨e.withContent (goOn p l).1 :: es, (goOn p l).2, none⟩ := by
  have h : takesLines ⟨e.withContent p.1 :: es, p.2, none⟩ = true :=
    (e.takesLines_withContent p.1).trans htakes
  by_cases hl : l.isItem = true
  · rw [takeIndented_of_item h hl, goOn, if_pos hl]
    exact modifyLast_withContent _ _ _ _ _ _ _
  · rw [takeIndented_of_text h hl, goOn, if_neg hl]
    exact modifyLast_withContent _ _ _ _ _ _ _

theorem step_of_isContinuation {l : Text} (hl : IsContinuation l) {s : State} (hc : s.code = none) :
    s.step l = .ok (s.takeIndented (readIndented (dropStar l))).1 := by
  rw [step_of_plain hc hl.openCode?_eq, takeLine_of_indented (readLine_of_isContinuation hl)]
  rfl

/-- A line that goes on with an element does so in the columns that are open. -/
theorem step_goOn {e : Element} (htakes : e.takesLines = true) (es : List Element) {l : Text}
    (hl : IsContinuation l) (p : Outline × Nesting) :
    step ⟨e.withContent p.1 :: es, p.2, none⟩ l =
      .ok ⟨e.withContent (goOn p (readIndented (dropStar l))).1 :: es,
        (goOn p (readIndented (dropStar l))).2, none⟩ := by
  rw [step_of_isContinuation hl rfl, takeIndented_goOn htakes]

theorem step_head (g : Group) {s : State} (hc : s.code = none) :
    s.step g.head = .ok (s.push (.tagged g.tag g.qualifiers (.leaf g.text))) := by
  rw [step_of_plain hc g.openCode?_head, takeLine_of_element g.readLine_head]
  rfl

end State

/-- The lines below an element that takes them go on with it, one after the other. -/
theorem readLines_below {e : Element} (htakes : e.takesLines = true) (es : List Element)
    {ls : List Text} (hls : ∀ l ∈ ls, IsContinuation l) (p : Outline × Nesting) :
    readLines ⟨e.withContent p.1 :: es, p.2, none⟩ ls =
      let p' := (ls.map fun l => readIndented (dropStar l)).foldl goOn p
      .ok ⟨e.withContent p'.1 :: es, p'.2, none⟩ := by
  induction ls generalizing p with
  | nil => rfl
  | cons l ls ih =>
    rw [readLines_cons_of_ok (State.step_goOn htakes es (hls l List.mem_cons_self) p)]
    exact ih (fun k hk => hls k (List.mem_cons_of_mem _ hk)) _

/-- **A group is one element.** Outside code it is read in the same way wherever it stands. -/
theorem readLines_group (g : Group) {s : State} (hc : s.code = none) :
    readLines s g.lines = .ok ⟨g.element :: s.elements, g.outline.2, none⟩ := by
  have hpush : s.push (.tagged g.tag g.qualifiers (.leaf g.text)) =
      ⟨.tagged g.tag g.qualifiers (.leaf g.text) :: s.elements, {}, none⟩ := by
    rw [State.push, hc]
  rw [Group.lines, readLines_cons_of_ok (State.step_head g hc), hpush]
  exact readLines_below (g.takesLines_tagged (.leaf g.text)) s.elements g.isContinuation
    (.leaf g.text, {})

/-! ## Groups below each other -/

/-- Lines that are some groups, in order, with blank lines anywhere around them. -/
inductive IsLaidOut : List Group → List Text → Prop
  | nil : IsLaidOut [] []
  | blank {l : Text} {gs : List Group} {ls : List Text} (hl : (dropStar l).allBlank = true)
    (h : IsLaidOut gs ls) : IsLaidOut gs (l :: ls)
  | group (g : Group) {gs : List Group} {ls : List Text} (h : IsLaidOut gs ls) :
    IsLaidOut (g :: gs) (g.lines ++ ls)

theorem openCode?_of_allBlank {l : Text} (h : l.allBlank = true) : openCode? l = none := by
  rw [openCode?, Text.words_of_allBlank h]
  rfl

theorem State.step_of_allBlank {l : Text} (hl : (dropStar l).allBlank = true) {s : State}
    (hc : s.code = none) : s.step l = .ok (s.push .separator) := by
  have hread : readLine (dropStar l) = .ok (.element .separator) := by
    rw [readLine, if_pos hl]
  rw [step_of_plain hc (openCode?_of_allBlank hl), takeLine_of_element hread]
  rfl

/-- Lines that are groups are read as the elements of the groups, with some that separate. -/
theorem readLines_of_isLaidOut {gs : List Group} {ls : List Text} (h : IsLaidOut gs ls)
    {s : State} (hc : s.code = none) :
    ∃ (es : List Element) (nesting : Nesting),
      readLines s ls = .ok ⟨es.reverse ++ s.elements, nesting, none⟩ ∧
      es.filter (· ≠ .separator) = gs.map Group.element := by
  induction h generalizing s with
  | nil =>
    obtain ⟨elements, nesting, code⟩ := s
    obtain rfl : code = none := hc
    exact ⟨[], nesting, rfl, rfl⟩
  | blank hl h ih =>
    obtain ⟨es, nesting, hread, hes⟩ := ih (s := s.push .separator) hc
    refine ⟨.separator :: es, nesting, ?_, hes⟩
    rw [readLines_cons_of_ok (State.step_of_allBlank hl hc), hread, List.reverse_cons,
      List.append_assoc]
    rfl
  | group g h ih =>
    obtain ⟨es, nesting, hread, hes⟩ := ih (s := ⟨g.element :: s.elements, g.outline.2, none⟩) rfl
    refine ⟨g.element :: es, nesting, ?_, ?_⟩
    · rw [readLines_append_of_ok (readLines_group g hc), hread, List.reverse_cons,
        List.append_assoc]
      rfl
    · rw [List.filter_cons_of_pos (by simp [g.element_ne_separator]), hes]
      rfl

/-- A comment that is laid out in groups can be read, and says what its groups say. -/
theorem elements_of_isLaidOut {gs : List Group} {t : Text} (h : IsLaidOut gs (sourceLines t)) :
    ∃ es, elements t = .ok es ∧ es.filter (· ≠ .separator) = gs.map Group.element := by
  obtain ⟨es, nesting, hread, hes⟩ := readLines_of_isLaidOut h (s := {}) rfl
  refine ⟨es ++ [.separator], ?_, ?_⟩
  · have hstate : stateAfter t = .ok ⟨es.reverse, nesting, none⟩ := by
      rw [stateAfter, hread, List.append_nil]
    rw [elements_of_ok hstate, State.finish_of_code_eq_none rfl, List.reverse_reverse]
  · rw [List.filter_append, hes]
    exact List.append_nil _

end DoxygenMarkdown.Comment

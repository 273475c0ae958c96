import DoxygenMarkdown.Proofs.Comment.Columns
import DoxygenMarkdown.Proofs.Comment.LeadingTag
import DoxygenMarkdown.Proofs.Comment.Settled
import DoxygenMarkdown.Proofs.Fences.Reading
import DoxygenMarkdown.Proofs.Sections.Group
import Mathlib.Data.List.TakeDrop

/-!
# Bullets nest by their columns

Lines with bullets (`IsBulletLine`) that follow a line which is an element become its items, in
their order, at any columns. What an item is below is read off the columns: it is the last item
before it that is further left. That holds for all items exactly if they are kept in line
(`elements_bullets`). It fails for a list as simple as this one, in which `d` becomes an item of `c`
(`elements_bullets_between_columns`):
```
List:
  - a
      - b
    - c
    - d
```

* One bullet is added on the edge of the outline, so it is the last item in order, as deep as its
  column says (`foldl_goOn_bullets`). That needs an invariant: the columns that are open are those
  of the last item (`IsAtEdge`).
* The depths of the items tell their parents, and `Nesting.depths_parents_iff` is about depths.
* The element has no items before the first bullet (`leaf_of_step_push`), and gets none behind the
  last one if the next line goes on with nothing (`BeginsAnew`).
-/

namespace DoxygenMarkdown.Comment

/-- A line with a bullet that opens no code. -/
structure IsBulletLine (l : Text) : Prop where
  isItem_eq : isItem (dropStar l).trim = true
  openCode?_eq : openCode? (dropStar l) = none

instance (l : Text) : Decidable (IsBulletLine l) :=
  decidable_of_iff (isItem (dropStar l).trim = true ∧ openCode? (dropStar l) = none)
    ⟨fun ⟨hi, ho⟩ => ⟨hi, ho⟩, fun h => ⟨h.1, h.2⟩⟩

/-- The column of a line. -/
def column (l : Text) : Nat := (dropStar l).indentation

/-- What a line with a bullet says. -/
def bulletText (l : Text) : Text := (readIndented (dropStar l)).text

/-- A line that goes on with nothing: it is blank, or it stands at the margin. -/
def BeginsAnew (l : Text) : Prop := (dropStar l).allBlank = true ∨ column l = 0

instance (l : Text) : Decidable (BeginsAnew l) :=
  inferInstanceAs (Decidable ((dropStar l).allBlank = true ∨ column l = 0))

/-! ## Reading bullets -/

theorem exists_bullet_of_isItem {t : Text} (h : isItem t = true) :
    ∃ c u, t = c :: u ∧ isBullet c = true := by
  rcases t with _ | ⟨c, _ | ⟨d, u⟩⟩
  · cases h
  · exact ⟨c, [], rfl, h⟩
  · exact ⟨c, d :: u, rfl, (Bool.and_eq_true_iff.1 h).1⟩

theorem allBlank_of_isItem {t : Text} (h : isItem t.trim = true) : t.allBlank = false := by
  obtain ⟨c, u, hcons, -⟩ := exists_bullet_of_isItem h
  rw [Bool.eq_false_iff]
  intro hblank
  have htrim := Text.trim_append_of_allBlank hblank []
  rw [List.append_nil, hcons] at htrim
  cases htrim

theorem leadsNowhere_of_isItem {t : Text} (h : isItem t = true) :
    leadsNowhere (Token.scan t) = false := by
  obtain ⟨c, u, rfl, hbullet⟩ := exists_bullet_of_isItem h
  have hat : c ≠ '@' := by
    rintro rfl
    exact absurd hbullet (by decide)
  have hback : c ≠ '\\' := by
    rintro rfl
    exact absurd hbullet (by decide)
  refine leadsNowhere_of_head? fun token htoken => ?_
  rw [Token.kind_of_mem_head?_scan htoken]
  exact Token.kindOf_ne_marker hat hback

/-- An indented line with a bullet goes on with the line before it. -/
theorem IsBulletLine.isContinuation {l : Text} (h : IsBulletLine l) (hc : column l ≠ 0) :
    IsContinuation l where
  indentation_ne := hc
  allBlank_eq := allBlank_of_isItem h.isItem_eq
  openCode?_eq := h.openCode?_eq
  leadsNowhere_eq := leadsNowhere_of_isItem h.isItem_eq

theorem Nesting.depth_enter_init (c : Nat) : (Nesting.enter {} c).depth = 0 := by
  rw [enter]
  split
  · rfl
  · rw [if_neg (by simp [innermost])]
    rfl

/-- The columns that are open after an outline are those of its last item. -/
def IsAtEdge (p : Outline × Nesting) : Prop :=
  p.2 = {} ∨ (Outline.listDepths 0 p.1.sub).getLast? = some p.2.depth

/-- Bullets are items of an outline, in order, at the depths of their columns. -/
theorem foldl_goOn_bullets {ls : List IndentedLine} (hls : ∀ l ∈ ls, l.isItem = true)
    {p : Outline × Nesting} (hp : IsAtEdge p) :
    (ls.foldl goOn p).1.top = p.1.top ∧
      Outline.listTexts (ls.foldl goOn p).1.sub =
        Outline.listTexts p.1.sub ++ ls.map IndentedLine.text ∧
      Outline.listDepths 0 (ls.foldl goOn p).1.sub =
        Outline.listDepths 0 p.1.sub ++ p.2.depths (ls.map IndentedLine.indent) := by
  induction ls generalizing p with
  | nil => exact ⟨rfl, (List.append_nil _).symm, (List.append_nil _).symm⟩
  | cons l ls ih =>
    obtain ⟨hl, hls⟩ := List.forall_mem_cons.1 hls
    have hstep : goOn p l = (p.1.modifyEdge (Outline.addItem l.text) (p.2.enter l.indent).depth,
        p.2.enter l.indent) := by rw [goOn, if_pos hl]
    have hdepths : Outline.listDepths 0 (goOn p l).1.sub =
        Outline.listDepths 0 p.1.sub ++ [(p.2.enter l.indent).depth] := by
      rw [hstep, Outline.listDepths_modifyEdge_addItem, Nat.zero_add]
      rcases hp with hp | hp
      · exact .inl (hp ▸ Nesting.depth_enter_init l.indent)
      · refine .inr ⟨p.2.depth, hp, ?_⟩
        rw [Nat.zero_add]
        exact Nesting.depth_enter_le p.2 l.indent
    have hedge : IsAtEdge (goOn p l) := by
      right
      rw [hdepths, List.getLast?_concat, hstep]
    obtain ⟨htop, htexts, hds⟩ := ih hls hedge
    refine ⟨?_, ?_, ?_⟩
    · rw [List.foldl_cons, htop, hstep]
      exact Outline.top_modifyEdge (f := Outline.addItem l.text) (fun _ => rfl) _ _
    · rw [List.foldl_cons, htexts, hstep, Outline.listTexts_modifyEdge_addItem, List.append_assoc]
      rfl
    · rw [List.foldl_cons, hds, hdepths, hstep, List.append_assoc]
      rfl

/-- Below an element that takes lines, bullets become its items. -/
theorem readLines_bullets {e : Element} (htakes : e.takesLines = true) (es : List Element)
    {ls : List Text} (hls : ∀ l ∈ ls, IsBulletLine l) (hmargin : ∀ l ∈ ls, 2 ≤ column l)
    (top : Text) :
    ∃ (o : Outline) (n : Nesting),
      readLines ⟨e.withContent (.leaf top) :: es, {}, none⟩ ls =
        .ok ⟨e.withContent o :: es, n, none⟩ ∧
      o.top = top ∧ Outline.listTexts o.sub = ls.map bulletText ∧
      Outline.listDepths 0 o.sub = Nesting.depths {} (ls.map column) := by
  have hcontinue : ∀ l ∈ ls, IsContinuation l := fun l hl =>
    (hls l hl).isContinuation (by have := hmargin l hl; omega)
  have hitems : ∀ l ∈ ls.map (fun l => readIndented (dropStar l)), l.isItem = true := by
    intro l hl
    obtain ⟨k, hk, rfl⟩ := List.mem_map.1 hl
    exact (hls k hk).isItem_eq
  obtain ⟨htop, htexts, hdepths⟩ := foldl_goOn_bullets hitems (p := (.leaf top, {})) (.inl rfl)
  rw [List.map_map] at htexts hdepths
  exact ⟨_, _, readLines_below htakes es hcontinue (.leaf top, {}), htop, htexts, hdepths⟩

/-! ## The line above -/

namespace State

theorem length_modifyLast (s : State) (depth : Nat) (f : Outline → Outline) :
    (s.modifyLast depth f).elements.length = s.elements.length := by
  obtain ⟨_ | ⟨e, es⟩, nesting, code⟩ := s <;> rfl

end State

/-- A line that is an element, whatever it is read after, has no items. -/
theorem leaf_of_step_push {s : State} (hc : s.code = none) {l : Text} {e : Element}
    (h : s.step l = .ok (s.push e)) : ∀ o ∈ e.content?, ∃ t, o = .leaf t := by
  rcases ho : openCode? (dropStar l) with _ | ⟨before, opener⟩
  · rw [State.step_of_plain hc ho] at h
    rcases hread : readLine (dropStar l) with err | ⟨e' | l'⟩
    · rw [State.takeLine_of_error hread] at h
      cases h
    · rw [State.takeLine_of_element hread] at h
      obtain rfl : e' = e := State.push_inj (Except.ok.inj h)
      exact leaf_of_readLine hread
    · rw [State.takeLine_of_indented hread] at h
      have h : (s.takeIndented l').1 = s.push e := Except.ok.inj h
      by_cases htakes : s.takesLines = true
      · -- the line went on with the element before it, so there is no new one
        have hlength : (s.takeIndented l').1.elements.length = s.elements.length := by
          by_cases hitem : l'.isItem = true
          · rw [State.takeIndented_of_item htakes hitem, State.length_modifyLast]
            rfl
          · rw [State.takeIndented_of_text htakes hitem, State.length_modifyLast]
            rfl
        rw [h] at hlength
        exact absurd hlength (Nat.succ_ne_self s.elements.length)
      · rw [State.takeIndented_of_element htakes] at h
        obtain rfl := State.push_inj h
        rintro o ⟨⟩
        exact ⟨_, rfl⟩
  · rw [State.step_of_opens hc ho] at h
    have hpush : (s.push e).code = none := hc
    exact absurd hpush (State.code_ne_of_beginCode h)

/-- If lines can go on with it, all that it has is a text. -/
theorem exists_leaf_of_step_push {s : State} (hc : s.code = none) {l : Text} {e : Element}
    (h : s.step l = .ok (s.push e)) (htakes : e.takesLines = true) :
    ∃ top, e.content? = some (.leaf top) ∧ e = e.withContent (.leaf top) := by
  have hleaf := leaf_of_step_push hc h
  cases e with
  | tagged tag qualifiers content =>
    obtain ⟨top, rfl⟩ := hleaf content rfl
    exact ⟨top, rfl, rfl⟩
  | plain content =>
    obtain ⟨top, rfl⟩ := hleaf content rfl
    exact ⟨top, rfl, rfl⟩
  | _ => cases htakes

/-! ## The lines below -/

/-- At the margin no line is read as one that goes on with another. -/
theorem takeLine_of_margin {s : State} (hc : s.code = none) {line : Text}
    (hmargin : line.indentation = 0) :
    s.takeLine line = (fun p => (p.1.above s.elements, p.2)) <$> State.takeLine {} line := by
  obtain ⟨es, n, code⟩ := s
  obtain rfl : code = none := hc
  rcases hread : readLine line with err | ⟨e | l⟩
  · rw [State.takeLine_of_error hread, State.takeLine_of_error hread]
    rfl
  · rw [State.takeLine_of_element hread, State.takeLine_of_element hread]
    rfl
  · rcases readLine_cases hmargin with ⟨x, w, more, -, hword⟩ | ⟨e, helement, -⟩
    · rw [hread] at hword
      rcases htagged : readTagged line w with err | e <;> rw [htagged] at hword <;> cases hword
    · rw [hread] at helement
      cases helement

/-- The words before a tag that opens code stand at the margin by themselves. -/
theorem indentation_of_openCode {line before opener : Text}
    (h : openCode? line = some (before, opener)) (hne : before ≠ []) : before.indentation = 0 := by
  obtain ⟨ws, w, rest, hwords, -, rfl, -⟩ := words_of_openCode h
  have hws : Text.AreWords ws := fun v hv =>
    Text.areWords_words line v (hwords ▸ List.mem_append_left (w :: rest) hv)
  have hne : ws ≠ [] := by
    rintro rfl
    exact hne rfl
  obtain ⟨c, u, hcons, hb, -⟩ := Text.unwords_eq_cons hne hws
  rw [hcons, Text.indentation_cons hb]

/-- A line that goes on with nothing is read as if a comment began with it. -/
theorem step_of_beginsAnew {s : State} (hc : s.code = none) {l : Text} (hl : BeginsAnew l) :
    s.step l = (·.above s.elements) <$> State.step {} l := by
  have hpush : ∀ e, s.push e = (State.push {} e).above s.elements := by
    intro e
    rw [State.push, hc]
    rfl
  rcases hl with hblank | hmargin
  · rw [State.step_of_allBlank hblank hc, State.step_of_allBlank hblank rfl, hpush]
    rfl
  rcases ho : openCode? (dropStar l) with _ | ⟨before, opener⟩
  · rw [State.step_of_plain hc ho, State.step_of_plain rfl ho, takeLine_of_margin hc hmargin]
    rcases State.takeLine {} (dropStar l) with err | p <;> rfl
  rw [State.step_of_opens hc ho, State.step_of_opens rfl ho]
  by_cases hw : before = []
  · subst hw
    have hi : ∀ s : State, ¬ ((dropStar l).indentation ≠ 0 ∧ s.takesLines = true) :=
      fun _ h => h.1 hmargin
    rw [State.beginCode_of_element (hi s), State.beginCode_of_element (hi {}), State.beginCodeAt,
      hpush]
    rfl
  · have hbefore :
        Text.indentation ((dropStar l).take (dropStar l).indentation ++ before) = 0 := by
      rw [show (dropStar l).indentation = 0 from hmargin]
      exact indentation_of_openCode ho hw
    rw [State.beginCode_of_words hw, State.beginCode_of_words hw, takeLine_of_margin hc hbefore]
    rcases hline : State.takeLine {} ((dropStar l).take (dropStar l).indentation ++ before) with
      err | ⟨s₁, depth⟩
    · rfl
    · exact congrArg Except.ok
        (State.beginCodeAt_above (fun _ => State.takeLine_ne_nil hline) _ _)

/-- And so are all lines from there on. -/
theorem finish_readLines_of_beginsAnew {s : State} (hc : s.code = none) {ls : List Text}
    (hls : ∀ l ∈ ls.head?, BeginsAnew l) :
    State.finish <$> readLines s ls =
      (s.elements.reverse ++ ·) <$> (State.finish <$> readLines {} ls) := by
  rcases ls with _ | ⟨l, ls⟩
  · exact congrArg Except.ok (State.finish_of_code_eq_none hc)
  rw [readLines_cons, readLines_cons, step_of_beginsAnew hc (hls l rfl)]
  rcases hstep : State.step {} l with err | s'
  · rfl
  have hne : s'.elements ≠ [] := State.step_ne_nil State.grounded_init hstep
  have hgrounded : s'.Grounded := State.step_grounded State.grounded_init hstep
  have habove : readLines (s'.above s.elements) ls = (·.above s.elements) <$> readLines s' ls :=
    State.readLines_above (fun h => absurd h hne) ls hgrounded
  show State.finish <$> readLines (s'.above s.elements) ls =
    (s.elements.reverse ++ ·) <$> (State.finish <$> readLines s' ls)
  rw [habove]
  rcases hread : readLines s' ls with err | s₁
  · rfl
  · exact congrArg Except.ok (State.finish_above (State.readLines_grounded hgrounded hread))

/-! ## The whole comment -/

/-- **Bullets nest by their columns exactly if they are kept in line.** A line `head` is an element
`e` outside code, after any lines. The bullets below it become its items: they say what the lines
say, in the order of the lines, and the parent of each item is the last one before it that is
further left, or else the element itself, exactly if the columns are kept in line. The rest is read
as if the comment began with it. -/
theorem elements_bullets {t head : Text} {before bullets after : List Text} {s : State}
    {e : Element} (ht : sourceLines t = before ++ head :: (bullets ++ after))
    (hbefore : readLines {} before = .ok s) (hcode : s.code = none)
    (hhead : s.step head = .ok (s.push e)) (htakes : e.takesLines = true)
    (hbullets : ∀ l ∈ bullets, IsBulletLine l) (hmargin : ∀ l ∈ bullets, 2 ≤ column l)
    (hapart : AreApart (bullets.map column)) (hafter : ∀ l ∈ after.head?, BeginsAnew l) :
    ∃ o : Outline,
      elements t = (fun es => s.elements.reverse ++ e.withContent o :: es) <$>
        (State.finish <$> readLines {} after) ∧
      e.content? = some (.leaf o.top) ∧
      Outline.listTexts o.sub = bullets.map bulletText ∧
      (Outline.listParents none 0 o.sub = parentsAfter [] (bullets.map column) ↔
        KeepsInLine [] (bullets.map column)) := by
  obtain ⟨top, hleaf, hsame⟩ := exists_leaf_of_step_push hcode hhead htakes
  have hpush : s.push e = ⟨e.withContent (.leaf top) :: s.elements, {}, none⟩ := by
    rw [← hsame, State.push, hcode]
  obtain ⟨o, n, hread, htop, htexts, hdepths⟩ :=
    readLines_bullets htakes s.elements hbullets hmargin top
  refine ⟨o, ?_, by rw [htop, hleaf], htexts, ?_⟩
  · rw [elements_eq, stateAfter, ht, readLines_append_of_ok hbefore, readLines_cons_of_ok hhead,
      hpush, readLines_append_of_ok hread, finish_readLines_of_beginsAnew rfl hafter]
    refine congrArg (· <$> State.finish <$> readLines {} after) (funext fun es => ?_)
    rw [List.reverse_cons, List.append_assoc]
    rfl
  · have hparents := Outline.listParents_eq 0 [] o.sub
    rw [lastBelow?_nil, hdepths] at hparents
    have hcolumns : ∀ c ∈ bullets.map column, 2 ≤ c := by
      intro c hc
      obtain ⟨l, hl, rfl⟩ := List.mem_map.1 hc
      exact hmargin l hl
    rw [← Nesting.depths_parents_iff hapart hcolumns, ← hparents]
    rfl

/-- A list that goes back to a column which is open, below a tag and above a blank line. -/
theorem elements_bullets_two_levels :
    ∃ o : Outline, elements "@note List:\n  - a\n      - b\n  - c\n\nEnd".toList =
        .ok [.tagged "note".toList [] o, .separator, .plain (.leaf "End".toList), .separator] ∧
      Outline.listTexts o.sub = ["a".toList, "b".toList, "c".toList] ∧
      Outline.listParents none 0 o.sub = [none, some 0, none] := by
  obtain ⟨o, helements, -, htexts, hparents⟩ := elements_bullets
    (t := "@note List:\n  - a\n      - b\n  - c\n\nEnd".toList) (s := {})
    (e := .tagged "note".toList [] (.leaf "List:".toList))
    (show sourceLines _ = [] ++ "@note List:".toList ::
      (["  - a".toList, "      - b".toList, "  - c".toList] ++ [[], "End".toList]) by decide)
    rfl rfl rfl (by decide) (by decide) (by decide) (by decide) (by decide)
  exact ⟨o, helements, htexts, hparents.2 (by decide)⟩

/-- A list that goes back to a column which is not open, and then has another item there. -/
theorem elements_bullets_between_columns :
    elements "List:\n  - a\n      - b\n    - c\n    - d".toList =
        .ok [.plain ⟨"List:".toList, [⟨"a".toList, [.leaf "b".toList]⟩,
          ⟨"c".toList, [.leaf "d".toList]⟩]⟩, .separator] ∧
      Outline.listParents none 0 [⟨"a".toList, [.leaf "b".toList]⟩,
          ⟨"c".toList, [.leaf "d".toList]⟩] ≠
        parentsAfter [] (["  - a".toList, "      - b".toList, "    - c".toList,
          "    - d".toList].map column) :=
  ⟨rfl, by decide⟩

end DoxygenMarkdown.Comment

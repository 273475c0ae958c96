import DoxygenMarkdown.Proofs.Comment.Bullets
import Mathlib.Data.List.Chain

/-!
# The open columns and the edge

The reader of a comment keeps a stack of columns beside the outline that it builds, and finds the
node that a line belongs to by the height of that stack. So the two have to be in step
(`stack_inStep`).

* The stack by itself is in order in every state. It begins at the margin, each column is two or
  more further right than the one below it (`Nesting.isChain_stack_enter`), and none is open that is
  more than one further right than the last line (`Nesting.innermost_enter_le`).
* An item is as deep as the stack is high if the edge goes as far as the node above it. The depth of
  the last node tells how far the edge goes (`Outline.isSome_edge?_iff`), so if one item is as deep
  as it should be, the next one is too, at any column (`along_addsAtDepth`).
* So all depends on the first item, which has to be one deep. It is, right below the line of the
  element, where no column is open. But text that goes on with a line opens a column as well, and
  adds no node. An item further right is then less deep than the stack is high, and the next item at
  its column becomes an item of it (`elements_bullets_below_text`):
```
List
  of two:
    - a
    - b
```
-/

namespace DoxygenMarkdown

namespace Outline

/-! ## The edge -/

/-- The node at some depth of the edge, if the edge goes that far. -/
def edge? : (depth : Nat) → Outline → Option Outline
  | 0, o => some o
  | depth + 1, o => o.sub.getLast?.bind (edge? depth)

/-- The edge goes as far as the last node in order is deep. -/
theorem isSome_edge?_iff (level depth : Nat) (o : Outline) :
    (edge? depth o).isSome = true ↔
      ∃ d, (depths level o).getLast? = some d ∧ level + depth ≤ d := by
  induction depth generalizing level o with
  | zero =>
    refine iff_of_true rfl ?_
    rw [depths_eq, List.getLast?_cons]
    refine ⟨_, rfl, ?_⟩
    rcases hlast : (listDepths (level + 1) o.sub).getLast? with _ | d
    · exact Nat.le_refl level
    · have hmem := List.mem_of_getLast? hlast
      exact Nat.le_of_succ_le (le_of_mem_listDepths (level + 1) o.sub d hmem)
  | succ depth ih =>
    rcases hlast : o.sub.getLast? with _ | last
    · rw [edge?, hlast, depths_eq, List.getLast?_eq_none_iff.1 hlast]
      refine iff_of_false Bool.false_ne_true ?_
      rintro ⟨d, hd, hle⟩
      obtain rfl : level = d := Option.some.inj hd
      omega
    · obtain ⟨os, hos⟩ := List.getLast?_eq_some_iff.1 hlast
      have hend : (depths level o).getLast? = (depths (level + 1) last).getLast? := by
        rw [depths_eq level, hos, listDepths_concat, depths_eq (level + 1) last, ← List.cons_append,
          List.getLast?_append_cons]
      rw [edge?, hlast, Option.bind_some, ih (level + 1) last, hend, Nat.add_right_comm,
        Nat.add_assoc]

/-- An item that is added to a node of the edge is one deeper than that node. -/
theorem depths_modifyEdge_addItem (t : Text) (level : Nat) {depth : Nat} {o : Outline}
    (h : (edge? depth o).isSome = true) :
    depths level (modifyEdge (addItem t) depth o) = depths level o ++ [level + depth + 1] := by
  have hitems : depth = 0 ∨
      ∃ d, (listDepths (level + 1) o.sub).getLast? = some d ∧ level + 1 + depth ≤ d + 1 := by
    obtain ⟨d, hd, hle⟩ := (isSome_edge?_iff level depth o).1 h
    rw [depths_eq, List.getLast?_cons, Option.some.injEq] at hd
    rcases hlast : (listDepths (level + 1) o.sub).getLast? with _ | e
    · rw [hlast, Option.getD_none] at hd
      exact .inl (by omega)
    · rw [hlast, Option.getD_some] at hd
      exact .inr ⟨e, rfl, by omega⟩
  rw [depths_eq, listDepths_modifyEdge_addItem t (level + 1) depth o hitems, depths_eq level o,
    List.cons_append, Nat.add_right_comm]

/-- A change of the text of a node leaves all nodes where they are. -/
theorem depths_modifyEdge {f : Outline → Outline} (hf : ∀ o, (f o).sub = o.sub) (level depth : Nat)
    (o : Outline) : depths level (modifyEdge f depth o) = depths level o := by
  induction depth generalizing level o with
  | zero => rw [modifyEdge, depths_eq, hf, ← depths_eq]
  | succ depth ih =>
    rcases hlast : o.sub.getLast? with _ | last
    · rw [modifyEdge_of_getLast?_eq_none f _ hlast, depths_eq, hf, ← depths_eq]
    · obtain ⟨os, hos⟩ := List.getLast?_eq_some_iff.1 hlast
      rw [modifyEdge_succ f depth hlast, depths_eq, depths_eq level o, hos, List.dropLast_concat,
        listDepths_concat, listDepths_concat, ih]

end Outline

namespace Comment

namespace Nesting

/-! ## The stack -/

/-- The columns that are open, the margin first. -/
def stack (n : Nesting) : List Nat := 0 :: n.columns.reverse

theorem getLast?_stack (n : Nesting) : n.stack.getLast? = some n.innermost := by
  rw [stack, List.getLast?_cons, List.getLast?_reverse, innermost, List.headD_eq_head?_getD]

/-- Each open column is two or more further right than the one below it. -/
theorem isChain_stack_enter {n : Nesting} (h : n.stack.IsChain (· + 2 ≤ ·)) (c : Nat) :
    (n.enter c).stack.IsChain (· + 2 ≤ ·) := by
  rw [enter]
  split
  · next hright =>
    rw [stack, List.reverse_cons, ← List.cons_append]
    refine List.isChain_append.2 ⟨h, List.isChain_singleton c, fun d hd e he => ?_⟩
    obtain rfl : n.innermost = d := Option.some.inj ((getLast?_stack n).symm.trans hd)
    obtain rfl : c = e := Option.some.inj he
    exact hright
  split
  · -- columns are closed from the innermost one on, so what is left is where the stack begins
    have hbegins : (n.columns.dropWhile (c + 1 < ·)).reverse <+: n.columns.reverse :=
      List.reverse_prefix.2 (List.dropWhile_suffix _)
    exact h.prefix (List.cons_prefix_cons.2 ⟨rfl, hbegins⟩)
  · exact h

/-- No column stays open that is more than one further right than the line. -/
theorem innermost_enter_le (n : Nesting) (c : Nat) : (n.enter c).innermost ≤ c + 1 := by
  rw [enter]
  split
  · exact Nat.le_succ c
  split
  · have hfirst := List.head?_dropWhile_not (c + 1 < ·) n.columns
    rw [innermost, List.headD_eq_head?_getD]
    rcases hhead : (n.columns.dropWhile (c + 1 < ·)).head? with _ | d
    · exact Nat.zero_le _
    · rw [hhead] at hfirst
      simpa using hfirst
  · omega

/-- Where some column is open, the stack is as high as the depth of an item. -/
theorem length_stack (n : Nesting) : max (n.stack.length - 1) 1 = n.depth + 1 := by
  rw [stack, List.length_cons, List.length_reverse, depth]
  omega

end Nesting

namespace State

variable {s s' : State}

theorem nesting_modifyLast (s : State) (depth : Nat) (f : Outline → Outline) :
    (s.modifyLast depth f).nesting = s.nesting := by
  obtain ⟨_ | ⟨e, es⟩, nesting, code⟩ := s <;> rfl

/-- A line is an element and closes all columns, or it takes in its own. -/
theorem nesting_takeLine {line : Text} {depth : Option Nat}
    (h : s.takeLine line = .ok (s', depth)) :
    s'.nesting = {} ∨ s'.nesting = s.nesting.enter line.indentation := by
  obtain ⟨e, -, rfl, -⟩ | ⟨t, rfl, -⟩ | ⟨-, t, f, -, rfl⟩ := takeLine_cases h
  · exact .inl rfl
  · exact .inl rfl
  · exact .inr (nesting_modifyLast _ _ _)

theorem nesting_beginCodeAt (s : State) (opening : Opening) (indent : Nat) (depth : Option Nat) :
    (s.beginCodeAt opening indent depth).nesting = {} ∨
      (s.beginCodeAt opening indent depth).nesting = s.nesting := by
  cases depth with
  | some depth => exact .inr (nesting_modifyLast s depth _)
  | none => exact .inl rfl

end State

/-- The words before a tag that opens code are indented like the line. -/
theorem indentation_prose {line p : Text} (h : prose? line = some p) :
    p.indentation = line.indentation := by
  rw [prose?] at h
  rcases ho : openCode? line with _ | ⟨before, opener⟩
  · rw [ho] at h
    rw [← Option.some.inj h]
  · rw [ho] at h
    obtain ⟨hne, hp⟩ := Option.ite_none_left_eq_some.1 h
    have hindent : line.take line.indentation = line.takeWhile isIndent :=
      (List.prefix_iff_eq_take.1 (List.takeWhile_prefix isIndent)).symm
    have hall : ∀ c ∈ line.take line.indentation, isIndent c = true := by
      intro c hc
      rw [hindent] at hc
      exact List.mem_takeWhile_imp hc
    rw [← Option.some.inj hp, Text.indentation_append hall, indentation_of_openCode ho hne, hindent]
    rfl

namespace State

variable {s s' : State}

/-- A line outside code is an element and closes all columns, or it takes in its own. -/
theorem nesting_step (hc : s.code = none) {l : Text} (h : s.step l = .ok s') :
    s'.nesting = {} ∨ s'.nesting = s.nesting.enter (column l) := by
  rcases ho : openCode? (dropStar l) with _ | ⟨before, opener⟩
  · rw [step_of_plain hc ho] at h
    obtain ⟨⟨s₁, depth⟩, hl, rfl⟩ := exists_of_map_eq_ok h
    exact nesting_takeLine hl
  rw [step_of_opens hc ho] at h
  obtain ⟨s₁, depth, rfl, ⟨-, rfl, rfl⟩ | ⟨-, -, rfl⟩ | ⟨hw, hl⟩⟩ := beginCode_cases h
  · exact .inl rfl
  · exact nesting_beginCodeAt _ _ _ _
  · have hcolumn : Text.indentation ((dropStar l).take (dropStar l).indentation ++ before) =
        column l := by
      refine indentation_prose ?_
      rw [prose?, ho]
      exact if_neg hw
    rcases nesting_beginCodeAt s₁ (readOpening ((Token.scan opener).drop 2))
      (dropStar l).indentation depth with hnone | hsame
    · exact .inl hnone
    · rw [hsame, ← hcolumn]
      exact nesting_takeLine hl

theorem nesting_step_of_code {block : CodeBlock} (hc : s.code = some block) {l : Text}
    (h : s.step l = .ok s') : s'.nesting = s.nesting := by
  rw [step_of_code hc] at h
  cases h
  split
  · rw [endCode]
    cases block.standalone <;> exact nesting_modifyLast s _ _
  · exact nesting_modifyLast s _ _

/-- **A step keeps the stack in order.** -/
theorem isChain_stack_step (h : s.nesting.stack.IsChain (· + 2 ≤ ·)) {l : Text}
    (hs : s.step l = .ok s') : s'.nesting.stack.IsChain (· + 2 ≤ ·) := by
  rcases hc : s.code with _ | block
  · rcases nesting_step hc hs with hnone | henter
    · rw [hnone]
      exact List.isChain_singleton 0
    · rw [henter]
      exact Nesting.isChain_stack_enter h _
  · rwa [nesting_step_of_code hc hs]

theorem isChain_stack_readLines {ls : List Text} (h : s.nesting.stack.IsChain (· + 2 ≤ ·))
    (hread : readLines s ls = .ok s') : s'.nesting.stack.IsChain (· + 2 ≤ ·) := by
  induction ls generalizing s with
  | nil =>
    cases hread
    exact h
  | cons l ls ih =>
    obtain ⟨s₁, hl, hread⟩ := exists_of_readLines_cons hread
    exact ih (isChain_stack_step h hl) hread

/-- After a line outside code, no column is open that is more than one further right. -/
theorem innermost_step_le (hc : s.code = none) {l : Text} (hs : s.step l = .ok s') :
    s'.nesting.innermost ≤ column l + 1 := by
  rcases nesting_step hc hs with hnone | henter
  · rw [hnone]
    exact Nat.zero_le _
  · rw [henter]
    exact Nesting.innermost_enter_le _ _

end State

/-! ## Bullets -/

/-- A line with a bullet, that may open code behind it. -/
def IsBullet (l : Text) : Prop := ∃ p ∈ prose? (dropStar l), isItem p.trim = true

instance (l : Text) : Decidable (IsBullet l) :=
  inferInstanceAs (Decidable (∃ p ∈ prose? (dropStar l), isItem p.trim = true))

namespace State

/-- A line adds an item to a node that is there, and the item is as deep as the stack is high. -/
def AddsAtDepth (s : State) (l : Text) : Prop :=
  ∃ e es o, s.elements = e :: es ∧ e.content? = some o ∧
    (o.edge? (s.nesting.enter (column l)).depth).isSome = true ∧
    ∃ s' o', s.step l = .ok s' ∧ s'.elements = e.withContent o' :: es ∧
      o'.depths 0 = o.depths 0 ++ [max (s'.nesting.stack.length - 1) 1]

variable {e : Element} {l : Text}

/-- A bullet becomes an item, and the code behind it, if any, goes on with that item. -/
theorem step_bullet (htakes : e.takesLines = true) (o : Outline) (es : List Element) (n : Nesting)
    (hl : IsBullet l) (hcolumn : column l ≠ 0) :
    ∃ t f code, (∀ o, (f o).sub = o.sub) ∧ (openCode? (dropStar l) = none → code = none) ∧
      step ⟨e.withContent o :: es, n, none⟩ l =
        .ok ⟨e.withContent ((o.modifyEdge (Outline.addItem t) (n.enter (column l)).depth).modifyEdge
          f ((n.enter (column l)).depth + 1)) :: es, n.enter (column l), code⟩ := by
  obtain ⟨p, hp, hitem⟩ := hl
  have hindent : p.indentation = column l := indentation_prose hp
  have hread : readLine p = .ok (.indented (readIndented p)) :=
    readLine_of_indentation_ne (by rwa [hindent]) (allBlank_of_isItem hitem)
      (leadsNowhere_of_isItem hitem)
  have htakes' : takesLines ⟨e.withContent o :: es, n, none⟩ = true :=
    (e.takesLines_withContent o).trans htakes
  have hline : takeLine ⟨e.withContent o :: es, n, none⟩ p =
      .ok (⟨e.withContent (o.modifyEdge (Outline.addItem (readIndented p).text)
        (n.enter (column l)).depth) :: es, n.enter (column l), none⟩,
        some ((n.enter (column l)).depth + 1)) := by
    rw [takeLine_of_indented hread, takeIndented_of_item htakes' hitem, ← hindent]
    exact congrArg (fun s => Except.ok (s, _)) (modifyLast_withContent e o es _ none _ _)
  rw [prose?] at hp
  rcases ho : openCode? (dropStar l) with _ | ⟨before, opener⟩
  · rw [ho] at hp
    obtain rfl : dropStar l = p := Option.some.inj hp
    refine ⟨(readIndented (dropStar l)).text, id, none, fun _ => rfl, fun _ => rfl, ?_⟩
    rw [step_of_plain rfl ho, hline, Outline.modifyEdge_id]
    rfl
  · rw [ho] at hp
    obtain ⟨hne, hp⟩ := Option.ite_none_left_eq_some.1 hp
    refine ⟨(readIndented p).text, Outline.startLine (openingText opener),
      some ⟨(n.enter (column l)).depth + 1, column l, false⟩, Outline.sub_startLine _,
      fun h => absurd h (Option.some_ne_none _), ?_⟩
    rw [step_of_opens rfl ho, beginCode_of_words hne, Option.some.inj hp, hline, Except.map_ok,
      beginCodeAt, modifyLast_withContent]
    rfl

/-- If the edge goes as far as the stack asks for, a bullet is added where it belongs. -/
theorem addsAtDepth_of_edge? (htakes : e.takesLines = true) {o : Outline} (es : List Element)
    {n : Nesting} (hl : IsBullet l) (hcolumn : column l ≠ 0)
    (hedge : (o.edge? (n.enter (column l)).depth).isSome = true) :
    AddsAtDepth ⟨e.withContent o :: es, n, none⟩ l ∧
      ∃ o' code, step ⟨e.withContent o :: es, n, none⟩ l =
          .ok ⟨e.withContent o' :: es, n.enter (column l), code⟩ ∧
        (o'.depths 0).getLast? = some ((n.enter (column l)).depth + 1) ∧
        (openCode? (dropStar l) = none → code = none) := by
  obtain ⟨t, f, code, hf, hcode, hstep⟩ := step_bullet htakes o es n hl hcolumn
  have hdepths : Outline.depths 0 ((o.modifyEdge (Outline.addItem t)
      (n.enter (column l)).depth).modifyEdge f ((n.enter (column l)).depth + 1)) =
        o.depths 0 ++ [(n.enter (column l)).depth + 1] := by
    rw [Outline.depths_modifyEdge hf, Outline.depths_modifyEdge_addItem t 0 hedge, Nat.zero_add]
  generalize Outline.modifyEdge f _ _ = o' at hstep hdepths
  have hcontent : (e.withContent o).content? = some o := by
    cases e <;> first | rfl | cases htakes
  refine ⟨⟨_, es, o, rfl, hcontent, hedge, _, o', hstep, ?_, ?_⟩, o', code, hstep, ?_, hcode⟩
  · exact congrArg (· :: es) (e.mapContent_withContent (fun _ => o') o).symm
  · rw [hdepths, Nesting.length_stack]
  · rw [hdepths, List.getLast?_concat]

end State

/-- Some bullets become items, each as deep as the stack is high. -/
theorem along_addsAtDepth {e : Element} (htakes : e.takesLines = true) (es : List Element)
    {bullets : List Text} (hbullets : ∀ l ∈ bullets, IsBullet l ∧ column l ≠ 0)
    (hplain : ∀ l ∈ bullets.dropLast, openCode? (dropStar l) = none) {o : Outline} {n : Nesting}
    (hfirst : ∀ l ∈ bullets.head?, (o.edge? (n.enter (column l)).depth).isSome = true) :
    Along State.AddsAtDepth ⟨e.withContent o :: es, n, none⟩ bullets := by
  induction bullets generalizing o n with
  | nil => exact trivial
  | cons l ls ih =>
    obtain ⟨⟨hl, hcolumn⟩, hls⟩ := List.forall_mem_cons.1 hbullets
    obtain ⟨hadds, o', code, hstep, hlast, hcode⟩ :=
      State.addsAtDepth_of_edge? htakes es hl hcolumn (hfirst l rfl)
    refine ⟨hadds, ?_⟩
    rw [hstep]
    rcases ls with _ | ⟨k, ls⟩
    · exact trivial
    rw [List.dropLast_cons_cons] at hplain
    obtain ⟨hopen, hplain⟩ := List.forall_mem_cons.1 hplain
    rw [hcode hopen]
    refine ih hls hplain fun k' hk' => ?_
    -- the last node is the item that was added, and the next one is at most one deeper
    refine (Outline.isSome_edge?_iff 0 _ o').2 ⟨_, hlast, ?_⟩
    rw [Nat.zero_add]
    exact Nesting.depth_enter_le _ _

/-- **The stack and the edge are in step.** In every state that a comment can lead to, the stack
begins at the margin and each column on it is two or more further right than the one below, and a
line outside code leaves none open that is more than one further right than the line. Bullets below
an element without items, of which only the last one may open code, are added to nodes that are
there, each as deep as the stack is high and at least one deep, if no column was open before them.
In general they are exactly if no more than one is open behind the first of them. -/
theorem stack_inStep {ls : List Text} {s : State} (hs : readLines {} ls = .ok s) :
    (s.nesting.stack.head? = some 0 ∧ s.nesting.stack.IsChain (· + 2 ≤ ·)) ∧
    (∀ l s', s.code = none → s.step l = .ok s' → s'.nesting.innermost ≤ column l + 1) ∧
    ∀ e es o bullets, s.elements = e :: es → e.takesLines = true → e.content? = some o →
      o.sub = [] → s.code = none → (∀ l ∈ bullets, IsBullet l ∧ column l ≠ 0) →
      (∀ l ∈ bullets.dropLast, openCode? (dropStar l) = none) →
      (s.nesting = {} → Along State.AddsAtDepth s bullets) ∧
      (Along State.AddsAtDepth s bullets ↔
        ∀ l ∈ bullets.head?, (s.nesting.enter (column l)).columns.length ≤ 1) := by
  have hinit : (State.nesting {}).stack.IsChain (· + 2 ≤ ·) := List.isChain_singleton 0
  refine ⟨⟨rfl, State.isChain_stack_readLines hinit hs⟩, ?_, ?_⟩
  · exact fun _ _ hcode hstep => State.innermost_step_le hcode hstep
  intro e es o bullets hes htakes hcontent hsub hcode hbullets hplain
  have hstate : s = ⟨e.withContent o :: es, s.nesting, none⟩ := by
    rw [e.withContent_eq_self hcontent, ← hes, ← hcode]
  have hadds : (∀ l ∈ bullets.head?, (s.nesting.enter (column l)).columns.length ≤ 1) →
      Along State.AddsAtDepth s bullets := by
    intro hfirst
    rw [hstate]
    refine along_addsAtDepth htakes es hbullets hplain fun l hl => ?_
    have hdepth : (s.nesting.enter (column l)).depth = 0 := Nat.sub_eq_zero_of_le (hfirst l hl)
    rw [hdepth]
    rfl
  refine ⟨fun hnone => hadds fun l _ => ?_, fun hrun l hl => ?_, hadds⟩
  · rw [hnone]
    exact Nat.le_of_sub_eq_zero (Nesting.depth_enter_init _)
  · obtain ⟨ls, rfl⟩ := List.head?_eq_some_iff.1 hl
    obtain ⟨e', es', o', hes', hcontent', hedge, -⟩ := hrun.1
    obtain ⟨rfl, rfl⟩ := List.cons.inj (hes.symm.trans hes')
    obtain rfl : o = o' := Option.some.inj (hcontent.symm.trans hcontent')
    -- the edge ends where it begins, as there are no items
    rcases hdepth : (s.nesting.enter (column l)).depth with _ | depth
    · exact Nat.le_of_sub_eq_zero hdepth
    · rw [hdepth, Outline.edge?, hsub] at hedge
      cases hedge

/-- Bullets at four columns right below a line. The third one goes back by less than a level, and
the last one opens code. -/
theorem stack_inStep_four_columns :
    readLines {} ["List:".toList] = .ok ⟨[.plain (.leaf "List:".toList)], {}, none⟩ ∧
      Along State.AddsAtDepth ⟨[.plain (.leaf "List:".toList)], {}, none⟩
        ["    - a".toList, "       - b".toList, "      - c".toList, " - d @code".toList] := by
  have hread : readLines {} ["List:".toList] =
      .ok ⟨[.plain (.leaf "List:".toList)], {}, none⟩ := rfl
  obtain ⟨-, -, hbullets⟩ := stack_inStep hread
  exact ⟨hread, (hbullets _ _ _ _ rfl rfl rfl rfl rfl (by decide) (by decide)).1 rfl⟩

/-- Bullets below text that goes on with a line. The element has no items, but the stack is two
columns high behind the first bullet, so there is no node for it at the depth that it asks for. The
second bullet is at the same column, and becomes an item of the first one. -/
theorem elements_bullets_below_text :
    readLines {} ["List".toList, "  of two:".toList] =
        .ok ⟨[.plain (.leaf "List of two:".toList)], ⟨[2]⟩, none⟩ ∧
      (∀ l ∈ ["    - a".toList, "    - b".toList], IsBullet l ∧ column l = 4) ∧
      ¬ Along State.AddsAtDepth ⟨[.plain (.leaf "List of two:".toList)], ⟨[2]⟩, none⟩
        ["    - a".toList, "    - b".toList] ∧
      elements "List\n  of two:\n    - a\n    - b".toList =
        .ok [.plain ⟨"List of two:".toList, [⟨"a".toList, [.leaf "b".toList]⟩]⟩, .separator] := by
  refine ⟨rfl, by decide, ?_, rfl⟩
  rintro ⟨⟨e, es, o, ⟨⟩, ⟨⟩, hedge, -⟩, -⟩
  exact absurd hedge (by decide)

end Comment

end DoxygenMarkdown

import DoxygenMarkdown.Proofs.Fences.OpenCode

/-!
# Where a block of code is collected

A block of code is collected in one node of one element: the line that opens it, its lines without
the indentation of the block, and the fence that closes it, one below the other
(`CodePassage.lines`). Reading the rest of the comment leaves them there, because elements only grow
(`kept_holds`), and so a block is found in what the comment is read as, wherever it was opened
(`exists_element_of_passage`).

The lines above the block in its node are fenced. So whoever goes over the node from its top comes
to the block outside of code.
-/

namespace DoxygenMarkdown

/-- Lines that begin with some line and end with a fence. -/
def IsBlock (ls : List Text) : Prop := ∃ o code, ls = o :: (code ++ [Markdown.fence])

/-- A block of code that is closed: a line that opens it, lines of code, and a fence. -/
def IsCodeBlock (k : LineKinds) (ls : List Text) : Prop :=
  ∃ o code, ls = o :: (code ++ [Markdown.fence]) ∧ k.opening o ∧ ∀ l ∈ code, k.code l

theorem IsCodeBlock.isBlock {k : LineKinds} {ls : List Text} (h : IsCodeBlock k ls) :
    IsBlock ls := by
  obtain ⟨o, code, rfl, -⟩ := h
  exact ⟨o, code, rfl⟩

/-- A text that holds a block is not empty. It has a line, and a block has two or more. -/
theorem IsBlock.isEmpty_eq {block : List Text} (hb : IsBlock block) {t : Text}
    {above below : List Text} (h : t.lines = above ++ block ++ below) : t.isEmpty = false := by
  obtain ⟨first, code, rfl⟩ := hb
  rcases t with _ | ⟨c, t⟩
  · have hlength := congrArg List.length h
    simp [Text.lines] at hlength
    omega
  · rfl

namespace Outline

variable {k : LineKinds} {block : List Text} {o : Outline} {level : Nat}

/-- In the text of a node at some level there is a block, and the lines above it are fenced. -/
inductive Holds (k : LineKinds) (block : List Text) : (level : Nat) → Outline → Prop
  | top {o : Outline} {above below : List Text} (habove : Fenced k above)
    (h : o.top.lines = above ++ block ++ below) : Holds k block 0 o
  | item {o p : Outline} {level : Nat} (hp : p ∈ o.sub) (h : Holds k block level p) :
    Holds k block (level + 1) o

theorem Holds.isEmpty_eq (hb : IsBlock block) (h : o.Holds k block level) : o.isEmpty = false := by
  cases h with
  | top habove h => rw [isEmpty, hb.isEmpty_eq h, Bool.false_and]
  | item hp h =>
    rw [isEmpty, List.isEmpty_eq_false_iff.2 (List.ne_nil_of_mem hp), Bool.and_false]

theorem Growth.mem_sub {f : Outline → Outline} (hf : Growth f) {p : Outline} (hp : p ∈ o.sub) :
    p ∈ (f o).sub := by
  cases hf with
  | addItem t => exact List.mem_append_left _ hp
  | continueWith t => rwa [sub_continueWith]
  | addLine t => exact hp
  | startLine t => rwa [sub_startLine]

/-- Text that is added to a node goes below a block that is there. -/
theorem Growth.lines_top {f : Outline → Outline} (hf : Growth f) (hb : IsBlock block)
    {above below : List Text} (h : o.top.lines = above ++ block ++ below) :
    ∃ below', (f o).top.lines = above ++ block ++ below' := by
  have hne : o.top.isEmpty = false := hb.isEmpty_eq h
  obtain ⟨first, code, rfl⟩ := hb
  have hbreak : ∀ t : Text, Text.lines (o.top ++ '\n' :: t) =
      above ++ (first :: (code ++ [Markdown.fence])) ++ (below ++ t.lines) := by
    intro t
    rw [Text.lines_append_break, h, List.append_assoc _ below]
  cases hf with
  | addItem t => exact ⟨below, h⟩
  | addLine t => exact ⟨_, hbreak t⟩
  | startLine t =>
    rw [Outline.startLine, hne]
    exact ⟨_, hbreak t⟩
  | continueWith t =>
    rw [Outline.continueWith, hne, if_neg Bool.false_ne_true]
    split
    · exact ⟨_, hbreak t⟩
    next hend =>
    obtain ⟨m, ms, hm⟩ := Text.lines_eq_cons t
    have hspace : Text.lines (' ' :: t) = (' ' :: m) :: ms := Text.lines_cons (by decide) hm
    rcases List.eq_nil_or_concat below with rfl | ⟨below, l, rfl⟩
    · -- the block is the last thing in the node, and is not gone on with
      have hl : o.top.lines = (above ++ first :: code) ++ [Markdown.fence] := by
        rw [h]
        simp
      exact absurd (endsWith_of_lines (by simp) hl) hend
    · have hl : o.top.lines = (above ++ (first :: (code ++ [Markdown.fence])) ++ below) ++ [l] := by
        rw [h, List.concat_eq_append, ← List.append_assoc]
      refine ⟨below ++ (l ++ ' ' :: m) :: ms, ?_⟩
      rw [Text.lines_append hl hspace, List.append_assoc]

theorem Holds.of_growth (hb : IsBlock block) {f : Outline → Outline} (hf : Growth f)
    (h : o.Holds k block level) : (f o).Holds k block level := by
  cases h with
  | top habove h =>
    obtain ⟨below, h⟩ := hf.lines_top hb h
    exact .top habove h
  | item hp h => exact .item (hf.mem_sub hp) h

theorem Holds.modifyEdge (hb : IsBlock block) {f : Outline → Outline} (hf : Growth f)
    (depth : Nat) (h : o.Holds k block level) :
    (modifyEdge f depth o).Holds k block level := by
  induction depth generalizing o level with
  | zero => exact h.of_growth hb hf
  | succ depth ih =>
    rcases hl : o.sub.getLast? with _ | last
    · rw [modifyEdge_of_getLast?_eq_none f _ hl]
      exact h.of_growth hb hf
    · rw [modifyEdge_succ f depth hl]
      cases h with
      | top habove h => exact .top habove h
      | item hp h =>
        obtain ⟨ps, hps⟩ := List.getLast?_eq_some_iff.1 hl
        rw [hps, List.dropLast_concat]
        rw [hps] at hp
        rcases List.mem_append.1 hp with hp | hp
        · exact .item (List.mem_append_left _ hp) h
        · obtain rfl := List.mem_singleton.1 hp
          exact .item List.mem_concat_self (ih h)

/-- A change that puts a block into the text of a node puts it into the outline. -/
theorem exists_holds_modifyEdge {P : Text → Prop} {f : Outline → Outline}
    (hf : ∀ o, o.All P → (f o).Holds k block 0) (ho : o.All P) (depth : Nat) :
    ∃ level, (Outline.modifyEdge f depth o).Holds k block level := by
  induction depth generalizing o with
  | zero => exact ⟨0, hf o ho⟩
  | succ depth ih =>
    rcases hl : o.sub.getLast? with _ | last
    · rw [modifyEdge_of_getLast?_eq_none f _ hl]
      exact ⟨0, hf o ho⟩
    · obtain ⟨level, h⟩ := ih (ho.sub last (List.mem_of_getLast? hl))
      rw [modifyEdge_succ f depth hl]
      exact ⟨level + 1, .item List.mem_concat_self h⟩

end Outline

namespace Outline

/-- Put lines below the text of a node. -/
def addLines (ls : List Text) (o : Outline) : Outline := ls.foldl (fun o l => o.addLine l) o

theorem sub_addLines (ls : List Text) (o : Outline) : (o.addLines ls).sub = o.sub := by
  induction ls generalizing o with
  | nil => rfl
  | cons l ls ih => exact ih (o.addLine l)

theorem lines_addLines {ls : List Text} (h : ∀ l ∈ ls, '\n' ∉ l) (o : Outline) :
    (o.addLines ls).top.lines = o.top.lines ++ ls := by
  induction ls generalizing o with
  | nil => exact (List.append_nil _).symm
  | cons l ls ih =>
    have hl : Text.lines l = [l] := Text.lines_of_notMem (h l List.mem_cons_self)
    have htop : (o.addLine l).top.lines = o.top.lines ++ [l] := by
      rw [addLine, Text.lines_append_break, hl]
    calc (o.addLines (l :: ls)).top.lines
        = (o.addLine l).top.lines ++ ls := ih (fun m hm => h m (List.mem_cons_of_mem _ hm)) _
      _ = o.top.lines ++ l :: ls := by rw [htop, List.append_assoc]; rfl

end Outline

/-- An element holds a block in its outline. -/
def Element.Holds (k : LineKinds) (block : List Text) (level : Nat) (e : Element) : Prop :=
  ∃ o ∈ e.content?, o.Holds k block level

namespace Comment

variable {k : LineKinds} {block : List Text} {level : Nat}

/-- A block stays in its element, whatever is added to it. -/
theorem kept_holds (hb : IsBlock block) : Kept fun e => e.Holds k block level := by
  rintro e ⟨o, ho, hblock⟩ depth f hf
  refine ⟨_, ?_, hblock.modifyEdge hb hf depth⟩
  cases e <;> cases ho <;> rfl

/-- No code is open below some lines of a comment, if they can be read at all. -/
def EndsOutside (ls : List Text) : Prop := ∀ s, readLines {} ls = .ok s → s.code = none

instance (ls : List Text) : Decidable (EndsOutside ls) :=
  match h : readLines {} ls with
  | .error e => isTrue fun s hs => by rw [h] at hs; cases hs
  | .ok s =>
    decidable_of_iff (s.code = none)
      ⟨fun hs s' hs' => by rw [h] at hs'; cases hs'; exact hs, fun hs => hs s h⟩

/-- A block of code in some lines: where it stands, and what opens it. It ends above a line that
closes it, or with the last line of all. -/
structure CodePassage (ls : List Text) where
  above : List Text
  /-- The line that opens the block. -/
  opening : Text
  /-- The words of that line before the tag. -/
  before : Text
  /-- The words of that line from the tag on. -/
  opener : Text
  /-- The lines of the block. -/
  body : List Text
  below : List Text
  lines_eq : ls = above ++ opening :: (body ++ below)
  outside : EndsOutside above
  opens : openCode? (dropStar opening) = some (before, opener)
  inside : ∀ l ∈ body, Marker.leads (dropStar l) Tag.endCode = false
  closes : ∀ l ∈ below.head?, Marker.leads (dropStar l) Tag.endCode = true

namespace CodePassage

variable {ls : List Text}

/-- A line of a block without the indentation of the block. -/
def content (p : CodePassage ls) (raw : Text) : Text :=
  CodeBlock.content ⟨0, (dropStar p.opening).indentation, false⟩ raw

/-- The lines that are collected of a block: what stands on the line that opens it, its own lines,
and the fence that closes it. -/
def lines (p : CodePassage ls) : List Text :=
  (openingText p.opener).lines ++ p.body.map p.content ++ [Markdown.fence]

theorem isBlock_lines (p : CodePassage ls) : IsBlock p.lines := by
  obtain ⟨o, code, hlines⟩ := Text.lines_eq_cons (openingText p.opener)
  exact ⟨o, code ++ p.body.map p.content, by rw [lines, hlines]; rfl⟩

end CodePassage

namespace State

variable {s s' : State}

/-- A block begins in a node of some elements: its first lines are put there, and nothing else is
done to the elements. -/
theorem exists_base_of_beginCodeAt (hs : s.All (FencedText k)) (hnil : FencedText k [])
    (opening : Opening) (indent : Nat) {depth : Option Nat} (hdepth : depth ≠ none → s.HasText) :
    ∃ (base : State) (block : CodeBlock), base.HasText ∧ base.All (FencedText k) ∧
      block.indent = indent ∧ (s.beginCodeAt opening indent depth).code = some block ∧
      (s.beginCodeAt opening indent depth).elements =
        (base.modifyLast block.depth (Outline.startLine opening.text)).elements := by
  cases depth with
  | some depth =>
    exact ⟨s, ⟨depth, indent, false⟩, hdepth (Option.some_ne_none _), hs, rfl, rfl, rfl⟩
  | none =>
    -- a block that is an element of its own begins in an empty one
    let e : Element := .tagged Tag.code opening.languages (.leaf [])
    exact ⟨s.push e, ⟨0, indent, true⟩, ⟨e, s.elements, .leaf [], rfl, rfl⟩,
      hs.push (all_tagged_leaf hnil _ _), rfl, rfl, rfl⟩

theorem exists_base_of_opens (hk : k.OfReader) (hs : s.All (FencedText k)) (hc : s.code = none)
    {raw before opener : Text} (hprose : s.KeepsProse k raw)
    (ho : openCode? (dropStar raw) = some (before, opener)) (hstep : s.step raw = .ok s') :
    ∃ (base : State) (block : CodeBlock), base.HasText ∧ base.All (FencedText k) ∧
      block.indent = (dropStar raw).indentation ∧ s'.code = some block ∧
      s'.elements =
        (base.modifyLast block.depth (Outline.startLine (openingText opener))).elements := by
  have hnil : FencedText k [] := FencedText.nil hk
  rw [step_of_opens hc ho] at hstep
  obtain ⟨s₁, depth, rfl, ⟨-, rfl, rfl⟩ | ⟨-, htakes, rfl⟩ | ⟨hw, hl⟩⟩ := beginCode_cases hstep
  · exact exists_base_of_beginCodeAt hs hnil _ _ fun h => absurd rfl h
  · have henter : (s.enter (dropStar raw).indentation).All (FencedText k) := hs
    exact exists_base_of_beginCodeAt henter hnil _ _ fun _ => hasText_of_takesLines htakes
  · have hline : SaysProse k ((dropStar raw).take (dropStar raw).indentation ++ before) := by
      apply hprose hc
      rw [prose?, ho]
      exact if_neg hw
    exact exists_base_of_beginCodeAt (hs.takeLine hk hline hl) hnil _ _ (hasText_takeLine hl)

/-- The lines of a block are put into its node, one below the other. -/
theorem readLines_body {block : CodeBlock} {body : List Text} (hc : s.code = some block)
    (hbody : ∀ l ∈ body, Marker.leads (dropStar l) Tag.endCode = false) :
    readLines s body =
      .ok (s.modifyLast block.depth (Outline.addLines (body.map block.content))) := by
  induction body generalizing s with
  | nil =>
    have hid : Outline.addLines [] = id := rfl
    rw [List.map_nil, hid, modifyLast_id]
    rfl
  | cons l body ih =>
    have hstep : s.step l = .ok (s.addCode block l) := by
      rw [step_of_code hc, hbody l List.mem_cons_self]
      rfl
    have hc' : (s.addCode block l).code = some block := (code_modifyLast s _ _).trans hc
    rw [readLines_cons_of_ok hstep, ih hc' fun m hm => hbody m (List.mem_cons_of_mem _ hm), addCode,
      modifyLast_modifyLast s block.depth (Outline.sub_addLine _)]
    rfl

/-- The lines of a block are code. -/
theorem code_of_along {block : CodeBlock} {body : List Text} (hc : s.code = some block)
    (hbody : ∀ l ∈ body, Marker.leads (dropStar l) Tag.endCode = false)
    (h : Along (fun s raw => s.KeepsProse k raw ∧ s.KeepsCode k raw) s body) :
    ∀ raw ∈ body, ∀ l ∈ (block.content raw).lines, k.code l := by
  induction body generalizing s with
  | nil => exact fun raw hraw => absurd hraw List.not_mem_nil
  | cons raw body ih =>
    have hend := hbody raw List.mem_cons_self
    have hstep : s.step raw = .ok (s.addCode block raw) := by
      rw [step_of_code hc, hend]
      rfl
    have hcode := h.1.2
    simp only [KeepsCode, hc] at hcode
    have hc' : (s.addCode block raw).code = some block := (code_modifyLast s _ _).trans hc
    exact List.forall_mem_cons.2
      ⟨hcode hend, ih hc' (fun m hm => hbody m (List.mem_cons_of_mem _ hm)) (h.tail hstep)⟩

theorem closed_eq_of_code {block : CodeBlock} (hc : s.code = some block) :
    s.closed.elements = (s.modifyLast block.depth (Outline.addLine Markdown.fence)).elements := by
  rw [closed_of_code hc]
  rfl

theorem elements_modifyLast {s s' : State} (h : s.elements = s'.elements) (depth : Nat)
    (f : Outline → Outline) :
    (s.modifyLast depth f).elements = (s'.modifyLast depth f).elements := by
  obtain ⟨es, nesting, code⟩ := s
  obtain ⟨es', nesting', code'⟩ := s'
  obtain rfl : es = es' := h
  cases es <;> rfl

end State

/-- What is put into a node from the line that opens a block to the fence that closes it. -/
theorem holds_addLine_fence {opening : Text} {contents : List Text}
    (hcontents : ∀ l ∈ contents, '\n' ∉ l) {o : Outline} (ho : o.All (FencedText k)) :
    (((o.startLine opening).addLines contents).addLine Markdown.fence).Holds k
      (opening.lines ++ contents ++ [Markdown.fence]) 0 := by
  have hfence : Text.lines Markdown.fence = [Markdown.fence] := by decide
  have hstart : ∃ above, Fenced k above ∧
      (o.startLine opening).top.lines = above ++ opening.lines := by
    unfold Outline.startLine
    split
    · exact ⟨[], .nil false, rfl⟩
    · exact ⟨o.top.lines, ho.top, Text.lines_append_break _ _⟩
  obtain ⟨above, habove, hlines⟩ := hstart
  have htop : (((o.startLine opening).addLines contents).addLine Markdown.fence).top.lines =
      above ++ (opening.lines ++ contents ++ [Markdown.fence]) ++ [] := by
    rw [Outline.addLine, Text.lines_append_break, Outline.lines_addLines hcontents, hlines, hfence]
    simp
  exact .top habove htop

/-- A block that is open in a node of some elements, with its lines so far, is found there when it
is closed. -/
theorem exists_element_of_base {base s : State} {block : CodeBlock} {opening : Text}
    {contents : List Text} (hcontents : ∀ l ∈ contents, '\n' ∉ l) (htext : base.HasText)
    (hbase : base.All (FencedText k)) (hc : s.code = some block)
    (hs : s.elements = ((base.modifyLast block.depth (Outline.startLine opening)).modifyLast
      block.depth (Outline.addLines contents)).elements) :
    ∃ e older level, s.closed.elements = e :: older ∧
      e.Holds k (opening.lines ++ contents ++ [Markdown.fence]) level := by
  obtain ⟨e, es, o, hes, ho⟩ := htext
  let change : Outline → Outline :=
    Outline.addLine Markdown.fence ∘ Outline.addLines contents ∘ Outline.startLine opening
  have hsub : ∀ o : Outline,
      ((Outline.addLines contents ∘ Outline.startLine opening) o).sub = o.sub := fun o =>
    (Outline.sub_addLines contents _).trans (Outline.sub_startLine opening o)
  have hclosed : s.closed.elements = (base.modifyLast block.depth change).elements := by
    rw [State.closed_eq_of_code hc, State.elements_modifyLast hs,
      State.modifyLast_modifyLast base _ (Outline.sub_startLine opening),
      State.modifyLast_modifyLast base _ hsub]
  obtain ⟨level, hholds⟩ := Outline.exists_holds_modifyEdge
    (fun o ho => holds_addLine_fence hcontents ho)
    (hbase e (hes ▸ List.mem_cons_self) o ho) block.depth
  refine ⟨e.mapContent (Outline.modifyEdge change block.depth), es, level, ?_, _, ?_, hholds⟩
  · rw [hclosed, State.modifyLast, hes]
  · cases e <;> cases ho <;> rfl

theorem CodeBlock.break_notMem_content {block : CodeBlock} {raw : Text} (h : '\n' ∉ raw) :
    '\n' ∉ block.content raw := by
  unfold CodeBlock.content
  split
  · exact fun hc => h (List.mem_of_mem_drop hc)
  · exact fun hc => h ((List.dropWhile_sublist _).subset hc)

theorem CodePassage.content_eq {ls : List Text} (p : CodePassage ls) {block : CodeBlock}
    (h : block.indent = (dropStar p.opening).indentation) (raw : Text) :
    block.content raw = p.content raw := by
  rw [content, CodeBlock.content, CodeBlock.content, h]

theorem CodePassage.break_notMem_content {t : Text} (p : CodePassage (sourceLines t)) :
    ∀ l ∈ p.body.map p.content, '\n' ∉ l := by
  intro l hl
  obtain ⟨raw, hraw, rfl⟩ := List.mem_map.1 hl
  have hmem : raw ∈ sourceLines t := by
    rw [p.lines_eq]
    simp [hraw]
  exact CodeBlock.break_notMem_content (Text.break_notMem_of_mem_lines hmem)

/-- Reading the lines around a block: the block begins in a node of some elements, then its lines
are read, and then those below. -/
theorem CodePassage.exists_base (hk : k.OfReader) {ls : List Text} (p : CodePassage ls)
    (h : KeepsFences k ls) {s : State} (hs : readLines {} ls = .ok s) :
    ∃ (base s₁ s₂ : State) (block : CodeBlock), base.HasText ∧ base.All (FencedText k) ∧
      block.indent = (dropStar p.opening).indentation ∧ s₁.code = some block ∧
      s₁.elements =
        (base.modifyLast block.depth (Outline.startLine (openingText p.opener))).elements ∧
      OpensBlock k (openingText p.opener) ∧
      Along (fun s raw => s.KeepsProse k raw ∧ s.KeepsCode k raw) s₁ p.body ∧
      readLines s₁ p.body = .ok s₂ ∧ readLines s₂ p.below = .ok s := by
  rw [p.lines_eq] at h hs
  obtain ⟨s₀, habove, hs⟩ := exists_of_readLines_append hs
  obtain ⟨s₁, hopening, hs⟩ := exists_of_readLines_cons hs
  obtain ⟨s₂, hbody, hbelow⟩ := exists_of_readLines_append hs
  obtain ⟨hkeepsAbove, hkeeps⟩ := Along.append_inv h habove
  have hkeepsBody := (Along.append_inv (hkeeps.tail hopening) hbody).1
  have hcode : s₀.code = none := p.outside s₀ habove
  have hall : s₀.All (FencedText k) := by
    have hclosed := all_closed_of_keepsFences hk hkeepsAbove habove
    rwa [State.closed_of_code_eq_none hcode] at hclosed
  have hopens : OpensBlock k (openingText p.opener) := by
    have hkeepsCode := hkeeps.1.2
    simp only [State.KeepsCode, hcode] at hkeepsCode
    exact hkeepsCode _ p.opens
  obtain ⟨base, block, htext, hbase, hindent, hblock, hs₁⟩ :=
    State.exists_base_of_opens hk hall hcode hkeeps.1.1 p.opens hopening
  exact ⟨base, s₁, s₂, block, htext, hbase, hindent, hblock, hs₁, hopens, hkeepsBody, hbody, hbelow⟩

/-- The lines that are collected of a block are a line that opens it and code. -/
theorem CodePassage.isCodeBlock (hk : k.OfReader) {t : Text} (p : CodePassage (sourceLines t))
    (h : KeepsFences k (sourceLines t)) {s : State} (hs : stateAfter t = .ok s) :
    IsCodeBlock k p.lines := by
  obtain ⟨-, s₁, s₂, block, -, -, hindent, hblock, -, ⟨o, code, hlines, ho, hfirst⟩, hkeeps, -⟩ :=
    p.exists_base hk h hs
  refine ⟨o, code ++ p.body.map p.content, ?_, ho, fun l hl => ?_⟩
  · rw [CodePassage.lines, hlines]
    simp
  · rcases List.mem_append.1 hl with hl | hl
    · exact hfirst l hl
    · have hbreak : '\n' ∉ l := p.break_notMem_content l hl
      obtain ⟨raw, hraw, rfl⟩ := List.mem_map.1 hl
      refine State.code_of_along hblock p.inside hkeeps raw hraw _ ?_
      rw [p.content_eq hindent, Text.lines_of_notMem hbreak]
      exact List.mem_singleton_self _

/-- **A block is collected in one node.** Each block of code of a comment is found, line by line, in
one node of one of the elements that the comment is read as. -/
theorem exists_element_of_passage (hk : k.OfReader) {t : Text} (h : KeepsFences k (sourceLines t))
    (p : CodePassage (sourceLines t)) {es : List Element} (hes : elements t = .ok es) :
    ∃ before e after level, es = before ++ e :: after ∧ e.Holds k p.lines level := by
  obtain ⟨s, hs, rfl⟩ := exists_of_map_eq_ok ((elements_eq t).symm.trans hes)
  obtain ⟨base, s₁, s₂, block, htext, hbase, hindent, hblock, hs₁, -, -, hbody, hbelow⟩ :=
    p.exists_base hk h hs
  have hs₂ : s₂ = s₁.modifyLast block.depth (Outline.addLines (p.body.map p.content)) := by
    have hcontent : p.body.map block.content = p.body.map p.content :=
      List.map_congr_left fun l _ => p.content_eq hindent l
    rw [State.readLines_body hblock p.inside, hcontent] at hbody
    exact (Except.ok.inj hbody).symm
  have hblock₂ : s₂.code = some block := by
    rw [hs₂, State.code_modifyLast, hblock]
  obtain ⟨e, older, level, hclosed, he⟩ := exists_element_of_base p.break_notMem_content htext hbase
    hblock₂ (by rw [hs₂, State.elements_modifyLast hs₁])
  have hgrows : Grows s₂.closed.elements s.closed.elements := by
    rcases hlines : p.below with _ | ⟨closing, rest⟩
    · rw [hlines] at hbelow
      cases hbelow
      exact .refl
    · -- the line that closes the block leaves the elements as they are with the code closed
      rw [hlines] at hbelow
      obtain ⟨s₃, hclosing, hrest⟩ := exists_of_readLines_cons hbelow
      have hleads := p.closes closing (by rw [hlines]; rfl)
      rw [State.step_of_code hblock₂, if_pos hleads] at hclosing
      cases hclosing
      rw [State.closed_of_code hblock₂]
      exact ((State.grows_endCode s₂ block).trans (grows_readLines hrest)).trans
        (State.grows_closed s)
  rw [hclosed] at hgrows
  obtain ⟨newer, e', hfinal, he'⟩ := hgrows.of_kept (kept_holds p.isBlock_lines) he
  refine ⟨older.reverse, e', newer.reverse ++ [.separator], level, ?_, he'⟩
  rw [State.finish_eq, hfinal]
  simp

end Comment

end DoxygenMarkdown

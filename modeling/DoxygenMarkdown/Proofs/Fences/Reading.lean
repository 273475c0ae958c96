import DoxygenMarkdown.Proofs.Comment.Settled
import DoxygenMarkdown.Proofs.Fences.Outline

/-!
# Reading keeps fences in pairs

What a comment is read as has its fences in pairs, in each node of each element by itself
(`all_of_keepsFences`). The reader puts a fence below a node when a block opens and another one when
it closes, so this rests on what the lines of the comment say:

* what a line outside code says is text (`State.KeepsProse`);
* what stands behind the tag that opens a block, and the lines of a block, are code
  (`State.KeepsCode`).

Both are asked of a line in the state that it is read in, all along the comment (`Along`). The
invariant is about the state with its code closed (`State.closed`): inside a block the fences of one
node are not in pairs yet, but they would be if the comment ended.
-/

namespace DoxygenMarkdown

namespace Comment

/-! ## What lines say -/

/-- The text of what a line says. -/
def Reading.text : Reading → Text
  | .element e => (e.content?.map Outline.top).getD []
  | .indented l => l.text

/-- What a line says, if it can be read, is text. -/
def SaysProse (k : LineKinds) (line : Text) : Prop :=
  ∀ r, readLine line = .ok r → IsProse k r.text

/-- The part of a line outside code that is read by itself: the whole line, or the words before the
tag that opens a block of code. -/
def prose? (line : Text) : Option Text :=
  match openCode? line with
  | none => some line
  | some (before, _) =>
    if before = [] then none else some (line.take line.indentation ++ before)

/-- The first lines of the block that the last words of a line open. -/
def openingText (opener : Text) : Text := (readOpening ((Token.scan opener).drop 2)).text

/-- Outside code, a line says text. -/
def State.KeepsProse (k : LineKinds) (s : State) (raw : Text) : Prop :=
  s.code = none → ∀ line ∈ prose? (dropStar raw), SaysProse k line

/-- Inside code, a line is code unless it closes the block. Outside, a line that opens a block
begins it well. -/
def State.KeepsCode (k : LineKinds) (s : State) (raw : Text) : Prop :=
  match s.code with
  | some block =>
    Marker.leads (dropStar raw) Tag.endCode = false → ∀ l ∈ (block.content raw).lines, k.code l
  | none => ∀ p ∈ openCode? (dropStar raw), OpensBlock k (openingText p.2)

/-- Something holds of each of some lines in the state that it is read in. -/
def Along (P : State → Text → Prop) : State → List Text → Prop
  | _, [] => True
  | s, l :: ls => P s l ∧ match s.step l with
    | .ok s' => Along P s' ls
    | .error _ => True

instance (k : LineKinds) [DecidablePred k.text] (line : Text) : Decidable (SaysProse k line) :=
  match h : readLine line with
  | .error e => isTrue fun r hr => by rw [h] at hr; cases hr
  | .ok r =>
    decidable_of_iff (IsProse k r.text)
      ⟨fun hr r' hr' => by rw [h] at hr'; cases hr'; exact hr, fun hr => hr r h⟩

instance (k : LineKinds) [DecidablePred k.text] (s : State) (raw : Text) :
    Decidable (s.KeepsProse k raw) :=
  inferInstanceAs (Decidable (s.code = none → ∀ line ∈ prose? (dropStar raw), SaysProse k line))

instance (k : LineKinds) [DecidablePred k.opening] [DecidablePred k.code] (s : State)
    (raw : Text) : Decidable (s.KeepsCode k raw) :=
  match h : s.code with
  | some block =>
    decidable_of_iff (Marker.leads (dropStar raw) Tag.endCode = false →
      ∀ l ∈ (block.content raw).lines, k.code l) (by rw [State.KeepsCode, h])
  | none =>
    decidable_of_iff (∀ p ∈ openCode? (dropStar raw), OpensBlock k (openingText p.2))
      (by rw [State.KeepsCode, h])

instance Along.decidable (P : State → Text → Prop) [∀ s l, Decidable (P s l)] :
    ∀ (s : State) (ls : List Text), Decidable (Along P s ls)
  | _, [] => isTrue trivial
  | s, l :: ls =>
    match h : s.step l with
    | .ok s' =>
      have := Along.decidable P s' ls
      decidable_of_iff (P s l ∧ Along P s' ls) (by rw [Along, h])
    | .error _ => decidable_of_iff (P s l) (by rw [Along, h, and_true])

theorem Along.tail {P : State → Text → Prop} {s s' : State} {l : Text} {ls : List Text}
    (h : Along P s (l :: ls)) (hs : s.step l = .ok s') : Along P s' ls := by
  rw [Along, hs] at h
  exact h.2

theorem Along.append_inv {P : State → Text → Prop} {s s' : State} {ls ms : List Text}
    (h : Along P s (ls ++ ms)) (hs : readLines s ls = .ok s') : Along P s ls ∧ Along P s' ms := by
  induction ls generalizing s with
  | nil =>
    cases hs
    exact ⟨trivial, h⟩
  | cons l ls ih =>
    obtain ⟨s₁, hl, hs⟩ := exists_of_readLines_cons hs
    obtain ⟨hls, hms⟩ := ih (h.tail hl) hs
    refine ⟨⟨h.1, ?_⟩, hms⟩
    rw [hl]
    exact hls

/-- What each line preserves, all lines preserve. -/
theorem Along.preserves {P : State → Text → Prop} {I : State → Prop}
    (hstep : ∀ {s s' : State} {l : Text}, I s → P s l → s.step l = .ok s' → I s')
    {s s' : State} {ls : List Text} (h : Along P s ls) (hs : I s)
    (hread : readLines s ls = .ok s') : I s' := by
  induction ls generalizing s with
  | nil =>
    cases hread
    exact hs
  | cons l ls ih =>
    obtain ⟨s₁, hl, hread⟩ := exists_of_readLines_cons hread
    exact ih (h.tail hl) (hstep hs h.1 hl) hread

/-- What holds of some lines in every state holds of them on their way. -/
theorem Along.and_of_forall {P Q : State → Text → Prop} {s : State} {ls : List Text}
    (h : Along P s ls) (hQ : ∀ l ∈ ls, ∀ s, Q s l) : Along (fun s l => P s l ∧ Q s l) s ls := by
  induction ls generalizing s with
  | nil => exact trivial
  | cons l ls ih =>
    refine ⟨⟨h.1, hQ l List.mem_cons_self s⟩, ?_⟩
    rcases hl : s.step l with e | s'
    · trivial
    · exact ih (h.tail hl) fun m hm => hQ m (List.mem_cons_of_mem _ hm)

theorem leaf_of_readTagged {line word : Text} {e : Element} (h : readTagged line word = .ok e) :
    ∀ o ∈ e.content?, ∃ t, o = .leaf t := by
  have hplain : ∀ o ∈ (plainLine line).content?, ∃ t, o = .leaf t := by
    rintro o ⟨⟩
    exact ⟨_, rfl⟩
  simp only [readTagged] at h
  split at h
  · cases h
    exact hplain
  split at h
  · split at h
    all_goals
      obtain ⟨qualifiers, -, h⟩ := exists_of_bind_eq_ok h
      cases h
      rintro o ⟨⟩
      exact ⟨_, rfl⟩
  · cases h
    exact hplain

/-- A line that is an element by itself says nothing, or is plain, or may be tagged. -/
theorem cases_of_readLine {line : Text} {e : Element} (h : readLine line = .ok (.element e)) :
    e.content? = none ∨ e = plainLine line ∨ ∃ word, readTagged line word = .ok e := by
  unfold readLine at h
  split at h
  · cases h
    exact .inl rfl
  unfold readTokens at h
  split at h
  · cases h
    exact .inl rfl
  · cases h
    exact .inl rfl
  · cases h
    split <;> exact .inl rfl
  split at h
  · cases h
  split at h
  · next word _ _ =>
    obtain ⟨e', he, h⟩ := exists_of_bind_eq_ok h
    cases h
    exact .inr (.inr ⟨word, he⟩)
  · cases h
    exact .inr (.inl rfl)

/-- A line that is an element by itself has no items. -/
theorem leaf_of_readLine {line : Text} {e : Element} (h : readLine line = .ok (.element e)) :
    ∀ o ∈ e.content?, ∃ t, o = .leaf t := by
  rcases cases_of_readLine h with hnone | rfl | ⟨word, hword⟩
  · rw [hnone]
    rintro o ⟨⟩
  · rintro o ⟨⟩
    exact ⟨_, rfl⟩
  · exact leaf_of_readTagged hword

namespace State

/-- Something holds of all texts of all elements. -/
def All (P : Text → Prop) (s : State) : Prop := ∀ e ∈ s.elements, e.All P

/-- The state with its code closed. -/
def closed (s : State) : State :=
  match s.code with
  | some block => s.closeCode block
  | none => s

theorem closed_of_code_eq_none {s : State} (h : s.code = none) : s.closed = s := by
  rw [closed, h]

theorem closed_of_code {s : State} {block : CodeBlock} (h : s.code = some block) :
    s.closed = s.closeCode block := by
  rw [closed, h]

theorem finish_eq (s : State) : s.finish = s.closed.elements.reverse ++ [.separator] := by
  rcases h : s.code with _ | block
  · rw [finish_of_code_eq_none h, closed_of_code_eq_none h]
  · rw [finish_of_code h, closed_of_code h]

theorem code_modifyLast (s : State) (depth : Nat) (f : Outline → Outline) :
    (s.modifyLast depth f).code = s.code := by
  obtain ⟨_ | ⟨e, es⟩, nesting, code⟩ := s <;> rfl

theorem modifyLast_id (s : State) (depth : Nat) : s.modifyLast depth id = s := by
  obtain ⟨_ | ⟨e, es⟩, nesting, code⟩ := s
  · rfl
  · have he : e.mapContent (Outline.modifyEdge id depth) = e := by
      cases e <;> simp only [Element.mapContent, Outline.modifyEdge_id]
    simp only [modifyLast, he]

theorem modifyLast_modifyLast (s : State) (depth : Nat) {f : Outline → Outline}
    (hf : ∀ o, (f o).sub = o.sub) (g : Outline → Outline) :
    (s.modifyLast depth f).modifyLast depth g = s.modifyLast depth (g ∘ f) := by
  obtain ⟨_ | ⟨e, es⟩, nesting, code⟩ := s
  · rfl
  · have he : (e.mapContent (Outline.modifyEdge f depth)).mapContent (Outline.modifyEdge g depth) =
        e.mapContent (Outline.modifyEdge (g ∘ f) depth) := by
      cases e <;> simp only [Element.mapContent, Outline.modifyEdge_modifyEdge hf]
    simp only [modifyLast, he]

variable {P : Text → Prop} {k : LineKinds} {s s' : State}

/-! ## Elements outside code -/

theorem All.push (h : s.All P) {e : Element} (he : e.All P) : (s.push e).All P := by
  intro e' he'
  rcases List.mem_cons.1 he' with rfl | he'
  · exact he
  · exact h e' he'

theorem all_tagged_leaf {t : Text} (h : P t) (tag : Text) (qualifiers : List Text) :
    (Element.tagged tag qualifiers (.leaf t)).All P := by
  rintro o ⟨⟩
  exact Outline.all_leaf h

/-- What holds after one change of the last element holds after another, if it does for the node
that is changed. -/
theorem All.modifyLast_of_imp {f g : Outline → Outline} (hfg : ∀ o, (f o).All P → (g o).All P)
    {depth : Nat} (h : (s.modifyLast depth f).All P) : (s.modifyLast depth g).All P := by
  obtain ⟨_ | ⟨e, es⟩, nesting, code⟩ := s
  · exact h
  intro e' he'
  rcases List.mem_cons.1 he' with rfl | he'
  · have hcontent : ∀ o ∈ e.content?, (o.modifyEdge f depth).All P := by
      intro o ho
      refine h _ List.mem_cons_self _ ?_
      cases e <;> cases ho <;> rfl
    intro o ho
    obtain ⟨o', ho', rfl⟩ : ∃ o' ∈ e.content?, o'.modifyEdge g depth = o := by
      cases e <;> cases ho <;> exact ⟨_, rfl, rfl⟩
    exact Outline.All.modifyEdge_of_imp hfg (hcontent o' ho')
  · exact h e' (List.mem_cons_of_mem _ he')

theorem All.modifyLast (h : s.All P) {f : Outline → Outline} (hf : ∀ o, o.All P → (f o).All P)
    (depth : Nat) : (s.modifyLast depth f).All P := by
  rw [← modifyLast_id s depth] at h
  exact h.modifyLast_of_imp hf

theorem all_continueWith (hk : k.OfReader) {t : Text} (ht : IsProse k t) {o : Outline}
    (ho : o.All (FencedText k)) : (o.continueWith t).All (FencedText k) := by
  refine ⟨ho.top.continueWith hk ht, ?_⟩
  rw [Outline.sub_continueWith]
  exact ho.sub

/-- Below a line outside code, all fences are in pairs. -/
theorem All.takeLine (hk : k.OfReader) (h : s.All (FencedText k)) {line : Text}
    {depth : Option Nat} (hline : SaysProse k line) (hs : s.takeLine line = .ok (s', depth)) :
    s'.All (FencedText k) := by
  rcases hl : readLine line with e | ⟨e | l⟩
  · rw [takeLine_of_error hl] at hs
    cases hs
  · rw [takeLine_of_element hl] at hs
    cases hs
    refine h.push fun o ho => ?_
    obtain ⟨t, rfl⟩ := leaf_of_readLine hl o ho
    have ht : IsProse k t := by
      have hr := hline _ hl
      rwa [Reading.text, ho] at hr
    exact Outline.all_leaf ht.fencedText
  · have ht : IsProse k l.text := hline _ hl
    rw [takeLine_of_indented hl] at hs
    cases hs
    by_cases htakes : s.takesLines = true
    · have henter : (s.enter l.indent).All (FencedText k) := h
      by_cases hitem : l.isItem = true
      · rw [takeIndented_of_item htakes hitem]
        exact henter.modifyLast (fun o ho => ho.addItem ht.fencedText) _
      · rw [takeIndented_of_text htakes hitem]
        exact henter.modifyLast (fun o ho => all_continueWith hk ht ho) _
    · rw [takeIndented_of_element htakes]
      refine h.push ?_
      rintro o ⟨⟩
      by_cases hitem : l.isItem = true
      · rw [if_pos hitem]
        exact Outline.all_leaf (ht.dash hk).fencedText
      · rw [if_neg hitem]
        exact Outline.all_leaf ht.fencedText

/-! ## Blocks of code -/

theorem takeLine_code {line : Text} {depth : Option Nat}
    (hs : s.takeLine line = .ok (s', depth)) : s'.code = s.code := by
  obtain ⟨e, -, rfl, -⟩ | ⟨t, rfl, -⟩ | ⟨-, t, f, -, rfl⟩ := takeLine_cases hs
  · rfl
  · rfl
  · exact code_modifyLast _ _ _

theorem all_startLine_addLine (hk : k.OfReader) {t : Text} (ht : OpensBlock k t) {o : Outline}
    (ho : o.All (FencedText k)) :
    ((o.startLine t).addLine Markdown.fence).All (FencedText k) := by
  refine ⟨Unclosed.addLine_fence hk (Unclosed.startLine ho.top ht), ?_⟩
  have hsub : ((o.startLine t).addLine Markdown.fence).sub = o.sub := Outline.sub_startLine t o
  rw [hsub]
  exact ho.sub

/-- A block that opens and closes at once leaves fences in pairs. -/
theorem All.closed_beginCodeAt (hk : k.OfReader) (h : s.All (FencedText k)) {opening : Opening}
    (ho : OpensBlock k opening.text) (indent : Nat) (depth : Option Nat) :
    (s.beginCodeAt opening indent depth).closed.All (FencedText k) := by
  cases depth with
  | some depth =>
    have hclosed : (s.beginCodeAt opening indent (some depth)).closed.elements =
        ((s.modifyLast depth (Outline.startLine opening.text)).modifyLast depth
          (Outline.addLine Markdown.fence)).elements := by
      rcases s with ⟨_ | ⟨e, es⟩, nesting, code⟩ <;> rfl
    rw [modifyLast_modifyLast s depth (Outline.sub_startLine opening.text)] at hclosed
    intro e he
    rw [hclosed] at he
    exact h.modifyLast (fun o ho' => all_startLine_addLine hk ho ho') depth e he
  | none =>
    have hleaf : FencedText k ((Outline.leaf opening.text).addLine Markdown.fence).top :=
      Unclosed.addLine_fence hk ho.unclosed
    exact h.push (all_tagged_leaf hleaf Tag.code opening.languages)

theorem All.closed_beginCode (hk : k.OfReader) (h : s.All (FencedText k))
    {line before opener : Text} (hbefore : before ≠ [] →
      SaysProse k (line.take line.indentation ++ before))
    (hopening : OpensBlock k (openingText opener))
    (hs : s.beginCode line before opener = .ok s') : s'.closed.All (FencedText k) := by
  obtain ⟨s₁, depth, rfl, hcases⟩ := beginCode_cases hs
  have h₁ : s₁.All (FencedText k) := by
    obtain ⟨-, rfl, -⟩ | ⟨-, -, rfl⟩ | ⟨hw, hl⟩ := hcases
    · exact h
    · exact h
    · exact h.takeLine hk (hbefore hw) hl
  exact h₁.closed_beginCodeAt hk hopening _ _

/-- A line of code leaves fences in pairs, once the block is closed. -/
theorem All.closed_addCode (hk : k.OfReader) {block : CodeBlock} {raw : Text}
    (h : (s.closeCode block).All (FencedText k))
    (hcode : ∀ l ∈ (block.content raw).lines, k.code l) :
    ((s.addCode block raw).closeCode block).All (FencedText k) := by
  have hadd : ∀ o : Outline, (o.addLine Markdown.fence).All (FencedText k) →
      ((o.addLine (block.content raw)).addLine Markdown.fence).All (FencedText k) := by
    intro o ho
    have hopen : Unclosed k o.top.lines := FencedText.of_addLine_fence hk ho.top
    exact ⟨Unclosed.addLine_fence hk (hopen.addLine hcode), ho.sub⟩
  have hmodify : (s.modifyLast block.depth
      (Outline.addLine Markdown.fence ∘ Outline.addLine (block.content raw))).All (FencedText k) :=
    All.modifyLast_of_imp hadd h
  rw [← modifyLast_modifyLast s block.depth (Outline.sub_addLine _)] at hmodify
  exact hmodify

/-! ## All lines -/

/-- **Reading a line keeps fences in pairs.** -/
theorem All.closed_step (hk : k.OfReader) (h : s.closed.All (FencedText k)) {raw : Text}
    (hprose : s.KeepsProse k raw) (hcode : s.KeepsCode k raw) (hs : s.step raw = .ok s') :
    s'.closed.All (FencedText k) := by
  rcases hc : s.code with _ | block
  · rw [closed_of_code_eq_none hc] at h
    simp only [KeepsCode, hc] at hcode
    have hprose := hprose hc
    rcases ho : openCode? (dropStar raw) with _ | ⟨before, opener⟩
    · rw [step_of_plain hc ho] at hs
      obtain ⟨⟨s₁, depth⟩, hl, rfl⟩ := exists_of_map_eq_ok hs
      rw [closed_of_code_eq_none ((takeLine_code hl).trans hc)]
      exact h.takeLine hk (hprose _ (by rw [prose?, ho]; rfl)) hl
    · rw [step_of_opens hc ho] at hs
      refine h.closed_beginCode hk (fun hw => hprose _ ?_) (hcode _ ho) hs
      rw [prose?, ho]
      exact if_neg hw
  · rw [closed_of_code hc] at h
    simp only [KeepsCode, hc] at hcode
    rw [step_of_code hc] at hs
    cases hs
    by_cases hend : Marker.leads (dropStar raw) Tag.endCode = true
    · rw [if_pos hend, closed_of_code_eq_none (endCode_code s block), endCode]
      split
      · intro e he
        rcases List.mem_cons.1 he with rfl | he
        · exact all_tagged_leaf (FencedText.nil hk) _ _
        · exact h e he
      · exact h
    · rw [if_neg hend]
      have hc' : (s.addCode block raw).code = some block := (code_modifyLast s _ _).trans hc
      rw [closed_of_code hc']
      exact h.closed_addCode hk (hcode (Bool.eq_false_iff.2 hend))

end State

/-- The lines of a comment say text outside code, and are code inside. -/
def KeepsFences (k : LineKinds) (ls : List Text) : Prop :=
  Along (fun s raw => s.KeepsProse k raw ∧ s.KeepsCode k raw) {} ls

instance (k : LineKinds) [DecidablePred k.text] [DecidablePred k.opening] [DecidablePred k.code]
    (ls : List Text) : Decidable (KeepsFences k ls) := Along.decidable _ _ _

/-- After lines that keep to what they are, fences are in pairs, or would be if the code was
closed. -/
theorem all_closed_of_keepsFences {k : LineKinds} (hk : k.OfReader) {ls : List Text}
    (h : KeepsFences k ls) {s : State} (hread : readLines {} ls = .ok s) :
    s.closed.All (FencedText k) := by
  have hinit : State.All (FencedText k) (State.closed {}) := fun e he => absurd he List.not_mem_nil
  refine Along.preserves (I := fun s => s.closed.All (FencedText k)) ?_ h hinit hread
  intro s s' raw hs hraw hstep
  exact hs.closed_step hk hraw.1 hraw.2 hstep

/-- **Reading keeps fences in pairs.** -/
theorem all_of_keepsFences {k : LineKinds} (hk : k.OfReader) {t : Text} {es : List Element}
    (h : KeepsFences k (sourceLines t)) (hes : elements t = .ok es) :
    ∀ e ∈ es, e.All (FencedText k) := by
  obtain ⟨s, hs, rfl⟩ := exists_of_map_eq_ok ((elements_eq t).symm.trans hes)
  have hclosed := all_closed_of_keepsFences hk h hs
  intro e he
  rw [State.finish_eq] at he
  rcases List.mem_append.1 he with he | he
  · exact hclosed e (List.mem_reverse.1 he)
  · obtain rfl : e = .separator := List.mem_singleton.1 he
    rintro o ⟨⟩

end Comment

end DoxygenMarkdown

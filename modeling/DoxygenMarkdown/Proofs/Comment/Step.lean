import DoxygenMarkdown.Comment
import DoxygenMarkdown.Proofs.Text.Lines
import Mathlib.Data.List.TakeDrop

/-!
# The steps of reading a comment

What the reader of a comment does with a line depends on a few things only: whether code is open,
whether the line opens code, what the line says by itself, and whether the last element takes
indented lines. For each answer there is one equation that says all that the step does, so nothing
else needs to look into the steps:

* `State.takeIndented_of_item`, `State.takeIndented_of_text` and `State.takeIndented_of_element` for
  an indented line;
* `State.takeLine_of_error`, `State.takeLine_of_element` and `State.takeLine_of_indented` for a line
  outside code;
* `State.beginCode_of_words`, `State.beginCode_of_indented` and `State.beginCode_of_element` for a
  line that opens code;
* `State.step_of_code`, `State.step_of_opens` and `State.step_of_plain` for any line;
* `State.finish_of_code_eq_none` and `State.finish_of_code` for the end of the comment.

What all lines outside code preserve is shown from what such a line can do at all
(`State.takeLine_cases`, `State.beginCode_cases`), and what all lines preserve from `State.StepsTo`.

All lines of a comment are read one after the other, from the state after the lines before
(`readLines_append`).
-/

namespace DoxygenMarkdown.Comment

/-! ## The lines of a comment -/

/-- The lines of a comment, without the carriage returns that end some of them. -/
def sourceLines (t : Text) : List Text := Text.lines t.dropReturns

/-- What is known after all lines of a comment. -/
def stateAfter (t : Text) : Except DirectionError State := readLines {} (sourceLines t)

/-- No code is open after the last line of a comment, if the lines can be read at all. -/
def ClosesCode (t : Text) : Prop := ∀ s, stateAfter t = .ok s → s.code = none

instance (t : Text) : Decidable (ClosesCode t) :=
  match h : stateAfter t with
  | .error e => isTrue fun s hs => by rw [h] at hs; cases hs
  | .ok s =>
    decidable_of_iff (s.code = none)
      ⟨fun hs s' hs' => by rw [h] at hs'; cases hs'; exact hs, fun hs => hs s h⟩

theorem elements_eq (t : Text) : elements t = State.finish <$> stateAfter t := rfl

theorem elements_of_error {t : Text} {e : DirectionError} (h : stateAfter t = .error e) :
    elements t = .error e := by
  rw [elements_eq, h]
  rfl

theorem elements_of_ok {t : Text} {s : State} (h : stateAfter t = .ok s) :
    elements t = .ok s.finish := by
  rw [elements_eq, h]
  rfl

/-- A line feed cuts the lines of a comment, unless the carriage return of that line feed is cut off
it. -/
theorem sourceLines_append_break {x : Text} (h : x.getLast? ≠ some '\r') (y : Text) :
    sourceLines (x ++ '\n' :: y) = sourceLines x ++ sourceLines y := by
  rw [sourceLines, Text.dropReturns_append_break h, Text.lines_append_break]
  rfl

theorem sourceLines_of_notMem {l : Text} (h : '\n' ∉ l) : sourceLines l = [l] := by
  rw [sourceLines, Text.dropReturns_of_notMem h, Text.lines_of_notMem h]

theorem flatMap_sourceLines {ls : List Text} (h : ∀ l ∈ ls, '\n' ∉ l) :
    ls.flatMap sourceLines = ls := by
  rw [List.flatMap_def, List.map_congr_left fun l hl => sourceLines_of_notMem (h l hl),
    ← List.flatMap_def]
  exact List.flatMap_singleton' ls

/-- Texts that are written one below the other have the lines of each of them. -/
theorem sourceLines_unlines_concat {ts : List Text} (h : ∀ t ∈ ts, t.getLast? ≠ some '\r')
    (b : Text) :
    sourceLines (Text.unlines (ts ++ [b])) = ts.flatMap sourceLines ++ sourceLines b := by
  induction ts with
  | nil => rw [List.nil_append, Text.unlines_singleton, List.flatMap_nil, List.nil_append]
  | cons t ts ih =>
    rw [List.cons_append, Text.unlines_cons (by simp),
      sourceLines_append_break (h t List.mem_cons_self),
      ih fun u hu => h u (List.mem_cons_of_mem _ hu), List.flatMap_cons, List.append_assoc]

/-- Lines that are written one below the other are found again. -/
theorem sourceLines_unlines {ls : List Text} (hne : ls ≠ []) (hbreak : ∀ l ∈ ls, '\n' ∉ l)
    (hreturn : ∀ l ∈ ls, l.getLast? ≠ some '\r') : sourceLines (Text.unlines ls) = ls := by
  obtain ⟨ks, l, rfl⟩ : ∃ ks l, ls = ks ++ [l] :=
    ⟨ls.dropLast, ls.getLast hne, (List.dropLast_concat_getLast hne).symm⟩
  rw [sourceLines_unlines_concat fun k hk => hreturn k (List.mem_append_left _ hk),
    flatMap_sourceLines fun k hk => hbreak k (List.mem_append_left _ hk),
    sourceLines_of_notMem (hbreak l List.mem_concat_self)]

/-! ## Reading them one after the other -/

/-- Where two steps lead somewhere, the first one does. -/
theorem exists_of_bind_eq_ok {α β : Type} {x : Except DirectionError α}
    {f : α → Except DirectionError β} {b : β} (h : x >>= f = .ok b) :
    ∃ a, x = .ok a ∧ f a = .ok b := by
  rcases x with e | a
  · cases h
  · exact ⟨a, rfl, h⟩

theorem exists_of_map_eq_ok {α β : Type} {x : Except DirectionError α} {f : α → β} {b : β}
    (h : f <$> x = .ok b) : ∃ a, x = .ok a ∧ f a = b := by
  rcases x with e | a
  · cases h
  · exact ⟨a, rfl, Except.ok.inj h⟩

theorem ok_ne_error {α : Type} (a : α) (e : DirectionError) :
    (Except.ok a : Except DirectionError α) ≠ .error e := by
  rintro ⟨⟩

theorem error_eq_error_iff {α β : Type} {e e' : DirectionError} :
    (Except.error e' : Except DirectionError α) = .error e ↔
      (Except.error e' : Except DirectionError β) = .error e := by
  rw [Except.error.injEq, Except.error.injEq]

theorem map_eq_error_iff {α β : Type} {x : Except DirectionError α} {f : α → β}
    {e : DirectionError} :
    f <$> x = .error e ↔ x = .error e := by
  rcases x with e' | a
  · exact error_eq_error_iff
  · exact iff_of_false (ok_ne_error _ e) (ok_ne_error _ e)

theorem readLines_cons (s : State) (l : Text) (ls : List Text) :
    readLines s (l :: ls) = s.step l >>= fun s => readLines s ls := List.foldlM_cons

theorem readLines_cons_of_ok {s s' : State} {l : Text} (h : s.step l = .ok s') (ls : List Text) :
    readLines s (l :: ls) = readLines s' ls := by
  rw [readLines_cons, h]
  rfl

/-- What is read line by line is read up to each of them. -/
theorem exists_of_readLines_cons {s s' : State} {l : Text} {ls : List Text}
    (h : readLines s (l :: ls) = .ok s') : ∃ s₁, s.step l = .ok s₁ ∧ readLines s₁ ls = .ok s' :=
  exists_of_bind_eq_ok ((readLines_cons s l ls).symm.trans h)

theorem readLines_append (s : State) (ls ms : List Text) :
    readLines s (ls ++ ms) = readLines s ls >>= fun s => readLines s ms := List.foldlM_append

theorem readLines_append_of_ok {s s' : State} {ls : List Text} (h : readLines s ls = .ok s')
    (ms : List Text) : readLines s (ls ++ ms) = readLines s' ms := by
  rw [readLines_append, h]
  rfl

theorem exists_of_readLines_append {s s' : State} {ls ms : List Text}
    (h : readLines s (ls ++ ms) = .ok s') :
    ∃ s₁, readLines s ls = .ok s₁ ∧ readLines s₁ ms = .ok s' :=
  exists_of_bind_eq_ok ((readLines_append s ls ms).symm.trans h)

theorem readLines_append_of_error {s : State} {e : DirectionError} {ls : List Text}
    (h : readLines s ls = .error e) (ms : List Text) : readLines s (ls ++ ms) = .error e := by
  rw [readLines_append, h]
  rfl

/-- A line that opens code falls into the words before the tag and those from the tag on. -/
theorem words_of_openCode {line before opener : Text} (h : openCode? line = some (before, opener)) :
    ∃ ws w rest, line.words = ws ++ w :: rest ∧ opensCode w = true ∧ before = Text.unwords ws ∧
      opener = Text.unwords (w :: rest) := by
  rw [openCode?, List.span_eq_takeWhile_dropWhile] at h
  rcases hd : line.words.dropWhile (!opensCode ·) with _ | ⟨w, rest⟩
  · rw [hd] at h
    cases h
  · have hw : opensCode w = true := by
      have hfirst := List.head?_dropWhile_not (!opensCode ·) line.words
      rw [hd] at hfirst
      simpa using hfirst
    rw [hd] at h
    obtain ⟨-, h⟩ := Option.ite_none_left_eq_some.1 h
    obtain ⟨rfl, rfl⟩ := Prod.mk.inj (Option.some.inj h)
    refine ⟨_, w, rest, ?_, hw, rfl, rfl⟩
    rw [← hd, List.takeWhile_append_dropWhile]

/-- A line that is no element by itself is indented, and its text is all that counts. -/
theorem eq_of_readLine_indented {line : Text} {l : IndentedLine}
    (h : readLine line = .ok (.indented l)) : line.indentation ≠ 0 ∧ l = readIndented line := by
  rw [readLine] at h
  split at h
  · cases h
  rw [readTokens.eq_def] at h
  split at h
  · cases h
  · cases h
  · cases h
  split at h
  · next hindent => exact ⟨hindent, (Reading.indented.inj (Except.ok.inj h)).symm⟩
  split at h
  · obtain ⟨e, -, he⟩ := exists_of_map_eq_ok h
    cases he
  · cases h

namespace State

/-! ## Lines outside code -/

/-- An item becomes the last one below its column. -/
theorem takeIndented_of_item {s : State} (h : s.takesLines = true) {l : IndentedLine}
    (hl : l.isItem = true) :
    s.takeIndented l =
      ((s.enter l.indent).modifyLast (s.enter l.indent).nesting.depth (Outline.addItem l.text),
        (s.enter l.indent).nesting.depth + 1) := by
  simp only [takeIndented, if_pos h, if_pos hl]

/-- Other text goes on with what stands at its column. -/
theorem takeIndented_of_text {s : State} (h : s.takesLines = true) {l : IndentedLine}
    (hl : ¬ l.isItem = true) :
    s.takeIndented l =
      ((s.enter l.indent).modifyLast (s.enter l.indent).nesting.depth (Outline.continueWith l.text),
        (s.enter l.indent).nesting.depth) := by
  simp only [takeIndented, if_pos h, if_neg hl]

/-- Where there is nothing to go on with, an indented line is an element. -/
theorem takeIndented_of_element {s : State} (h : ¬ s.takesLines = true) (l : IndentedLine) :
    s.takeIndented l =
      (s.push (.plain (.leaf (if l.isItem then '-' :: ' ' :: l.text else l.text))), 0) := by
  simp only [takeIndented, if_neg h]

theorem takeLine_of_error {line : Text} {e : DirectionError} (h : readLine line = .error e)
    (s : State) : s.takeLine line = .error e := by
  rw [takeLine, h]

theorem takeLine_of_element {line : Text} {e : Element} (h : readLine line = .ok (.element e))
    (s : State) :
    s.takeLine line = .ok (s.push e, if e.content?.isSome then some 0 else none) := by
  rw [takeLine, h]

theorem takeLine_of_indented {line : Text} {l : IndentedLine}
    (h : readLine line = .ok (.indented l)) (s : State) :
    s.takeLine line = .ok ((s.takeIndented l).1, some (s.takeIndented l).2) := by
  rw [takeLine, h]

/-- A line that can be read is an element, or it changes a node on the edge of the last one. -/
theorem takeLine_cases {s s' : State} {line : Text} {depth : Option Nat}
    (h : s.takeLine line = .ok (s', depth)) :
    (∃ e, readLine line = .ok (.element e) ∧ s' = s.push e ∧
      depth = if e.content?.isSome then some 0 else none) ∨
    (∃ t, s' = s.push (.plain (.leaf t)) ∧ depth = some 0) ∨
    (s.takesLines = true ∧ ∃ t f, (f = Outline.addItem t ∨ f = Outline.continueWith t) ∧
      s' = (s.enter line.indentation).modifyLast (s.enter line.indentation).nesting.depth f) := by
  rcases hl : readLine line with err | ⟨e | l⟩
  · rw [takeLine_of_error hl] at h
    cases h
  · rw [takeLine_of_element hl] at h
    cases h
    exact .inl ⟨e, rfl, rfl, rfl⟩
  · obtain ⟨-, rfl⟩ := eq_of_readLine_indented hl
    rw [takeLine_of_indented hl] at h
    cases h
    by_cases htakes : s.takesLines = true
    · refine .inr (.inr ⟨htakes, (readIndented line).text, ?_⟩)
      by_cases hitem : (readIndented line).isItem = true
      · exact ⟨_, .inl rfl, congrArg Prod.fst (takeIndented_of_item htakes hitem)⟩
      · exact ⟨_, .inr rfl, congrArg Prod.fst (takeIndented_of_text htakes hitem)⟩
    · rw [takeIndented_of_element htakes]
      exact .inr (.inl ⟨_, rfl, rfl⟩)

/-! ## Lines that open code -/

/-- Words before the tag are a line of their own, and the code goes where they went. -/
theorem beginCode_of_words {before : Text} (hw : before ≠ []) (s : State) (line opener : Text) :
    s.beginCode line before opener =
      (fun p => p.1.beginCodeAt (readOpening ((Token.scan opener).drop 2)) line.indentation p.2) <$>
        s.takeLine (line.take line.indentation ++ before) := by
  simp only [beginCode, if_pos hw]
  rcases s.takeLine (line.take line.indentation ++ before) with e | ⟨s', depth⟩ <;> rfl

/-- A tag that is indented below an element that takes lines goes where such a line would go. -/
theorem beginCode_of_indented {s : State} {line : Text}
    (hi : line.indentation ≠ 0 ∧ s.takesLines = true) (opener : Text) :
    s.beginCode line [] opener =
      .ok ((s.enter line.indentation).beginCodeAt (readOpening ((Token.scan opener).drop 2))
        line.indentation (some (s.enter line.indentation).nesting.depth)) := by
  simp only [beginCode, ne_eq, not_true_eq_false, if_false, if_pos hi]

/-- Any other tag begins an element. -/
theorem beginCode_of_element {s : State} {line : Text}
    (hi : ¬(line.indentation ≠ 0 ∧ s.takesLines = true)) (opener : Text) :
    s.beginCode line [] opener =
      .ok (s.beginCodeAt (readOpening ((Token.scan opener).drop 2)) line.indentation none) := by
  simp only [beginCode, ne_eq, not_true_eq_false, if_false, if_neg hi]

theorem code_beginCodeAt_ne (s : State) (opening : Opening) (indent : Nat) (depth : Option Nat) :
    (s.beginCodeAt opening indent depth).code ≠ none := by
  cases depth <;> exact Option.some_ne_none _

/-- Code begins by itself, or where text at its column would go, or behind the words before its
tag. -/
theorem beginCode_cases {s s' : State} {line before opener : Text}
    (hs : s.beginCode line before opener = .ok s') :
    ∃ s₁ depth, s' = s₁.beginCodeAt (readOpening ((Token.scan opener).drop 2)) line.indentation
        depth ∧
      (before = [] ∧ s₁ = s ∧ depth = none ∨
        before = [] ∧ s.takesLines = true ∧ s₁ = s.enter line.indentation ∨
        before ≠ [] ∧ s.takeLine (line.take line.indentation ++ before) = .ok (s₁, depth)) := by
  by_cases hw : before = []
  · subst hw
    by_cases hi : line.indentation ≠ 0 ∧ s.takesLines = true
    · rw [beginCode_of_indented hi] at hs
      cases hs
      exact ⟨_, _, rfl, .inr (.inl ⟨rfl, hi.2, rfl⟩)⟩
    · rw [beginCode_of_element hi] at hs
      cases hs
      exact ⟨_, _, rfl, .inl ⟨rfl, rfl, rfl⟩⟩
  · rw [beginCode_of_words hw] at hs
    obtain ⟨⟨s₁, depth⟩, hl, rfl⟩ := exists_of_map_eq_ok hs
    exact ⟨s₁, depth, rfl, .inr (.inr ⟨hw, hl⟩)⟩

theorem code_ne_of_beginCode {s s' : State} {line before opener : Text}
    (h : s.beginCode line before opener = .ok s') : s'.code ≠ none := by
  obtain ⟨s₁, depth, rfl, -⟩ := beginCode_cases h
  exact code_beginCodeAt_ne _ _ _ _

/-! ## All lines -/

/-- Inside code, a line closes the block or belongs to it. -/
theorem step_of_code {s : State} {block : CodeBlock} (hc : s.code = some block) (raw : Text) :
    s.step raw =
      .ok (if Marker.leads (dropStar raw) Tag.endCode then s.endCode block
        else s.addCode block raw) := by
  simp only [step, hc]

/-- Outside code, a line may open a block of code. -/
theorem step_of_opens {s : State} {raw before opener : Text} (hc : s.code = none)
    (ho : openCode? (dropStar raw) = some (before, opener)) :
    s.step raw = s.beginCode (dropStar raw) before opener := by
  simp only [step, hc, ho]

/-- Outside code, a line that opens no block is read by itself. -/
theorem step_of_plain {s : State} {raw : Text} (hc : s.code = none)
    (ho : openCode? (dropStar raw) = none) :
    s.step raw = (·.1) <$> s.takeLine (dropStar raw) := by
  simp only [step, hc, ho]

/-- What a line can lead to. Outside code it is read by itself or opens a block, and inside code it
closes the block or belongs to it. -/
inductive StepsTo (s : State) (raw : Text) (s' : State) : Prop where
  | line (hc : s.code = none) (ho : openCode? (dropStar raw) = none) (depth : Option Nat)
    (h : s.takeLine (dropStar raw) = .ok (s', depth))
  | opens (hc : s.code = none) (before opener : Text)
    (ho : openCode? (dropStar raw) = some (before, opener))
    (h : s.beginCode (dropStar raw) before opener = .ok s')
  | closes (block : CodeBlock) (hc : s.code = some block)
    (hend : Marker.leads (dropStar raw) Tag.endCode = true) (h : s' = s.endCode block)
  | code (block : CodeBlock) (hc : s.code = some block)
    (hend : Marker.leads (dropStar raw) Tag.endCode = false) (h : s' = s.addCode block raw)

theorem stepsTo_of_step {s s' : State} {raw : Text} (h : s.step raw = .ok s') :
    s.StepsTo raw s' := by
  rcases hc : s.code with _ | block
  · rcases ho : openCode? (dropStar raw) with _ | ⟨before, opener⟩
    · rw [step_of_plain hc ho] at h
      obtain ⟨⟨s₁, depth⟩, hl, rfl⟩ := exists_of_map_eq_ok h
      exact .line hc ho depth hl
    · rw [step_of_opens hc ho] at h
      exact .opens hc before opener ho h
  · rw [step_of_code hc] at h
    rcases hend : Marker.leads (dropStar raw) Tag.endCode with _ | _
    · rw [hend] at h
      exact .code block hc hend (Except.ok.inj h).symm
    · rw [hend] at h
      exact .closes block hc hend (Except.ok.inj h).symm

/-- Outside code, an empty line is an element that separates. -/
theorem step_nil {s : State} (hc : s.code = none) : s.step [] = .ok (s.push .separator) := by
  rw [step_of_plain hc rfl]
  rfl

/-- The end of a comment separates, and outside code it does nothing else. -/
theorem finish_of_code_eq_none {s : State} (hc : s.code = none) :
    s.finish = s.elements.reverse ++ [.separator] := by
  simp only [finish, hc, List.reverse_cons]

/-- Code that is open at the end of a comment is closed there. -/
theorem finish_of_code {s : State} {block : CodeBlock} (hc : s.code = some block) :
    s.finish = (s.closeCode block).elements.reverse ++ [.separator] := by
  simp only [finish, hc, List.reverse_cons]

end State

end DoxygenMarkdown.Comment

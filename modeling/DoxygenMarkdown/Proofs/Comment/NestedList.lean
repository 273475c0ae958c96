import DoxygenMarkdown.Proofs.Fences.Written
import DoxygenMarkdown.Proofs.Outline
import DoxygenMarkdown.Proofs.Plain.Line
import DoxygenMarkdown.Proofs.Sections.Group

/-!
# Nested lists are read as they are written

An outline that is written as a paragraph with a list below it is read back as that outline
(`elements_render`), however deep and wide it is. Writing walks the tree, and reading builds it from
nothing but the columns of its lines; they meet because both go along the edge.

* While an item is read, the nodes around it are not finished: `Outline.within` puts an outline
  below the last of them, and a change at their depth reaches that outline and nothing else
  (`Outline.modifyEdge_within`).
* The columns that are open are those of the levels so far (`Nesting.levels`). A line at a level
  that is open closes those further right, however many, and a line one level deeper opens one
  (`Nesting.enter_levels`).

So an item is added where it came from (`readsItems_itemLines`), by induction on the outline, for
any nodes around it and any levels left open by the items before.
-/

namespace DoxygenMarkdown

/-- A text that is read as it is written behind a bullet: a line without markup that opens no
code. It may be empty, and it may begin with a bullet. -/
structure IsItemText (t : Text) : Prop where
  break_notMem : '\n' ∉ t
  format_eq : Inline.format t = t
  opensCode_eq : ∀ w ∈ t.words, Comment.opensCode w = false

/-- A text that is read as text at the margin: it begins neither with a marker nor with a star that
stands by itself. -/
structure IsMarginText (t : Text) : Prop where
  ne_nil : t ≠ []
  hasNoMarker : Marker.HasNoMarker t
  ne_star : t ≠ ['*']
  startsWith_eq_false : t.startsWith "* ".toList = false

instance (t : Text) : Decidable (IsItemText t) :=
  decidable_of_iff
    ('\n' ∉ t ∧ Inline.format t = t ∧ ∀ w ∈ t.words, Comment.opensCode w = false)
    ⟨fun ⟨hb, hf, ho⟩ => ⟨hb, hf, ho⟩, fun h => ⟨h.break_notMem, h.format_eq, h.opensCode_eq⟩⟩

/-! ## Texts that are formatted already -/

/-- A line that its markup leaves alone is made of words with one space between them. -/
theorem IsItemText.exists_words {t : Text} (h : IsItemText t) :
    ∃ ws, Text.AreWords ws ∧ t = Text.unwords ws := by
  obtain ⟨u, f, hu, hf⟩ : ∃ (u : Text) (f : Text → Text), t = Text.unwords (u.words.map f) ∧
      ∀ w, f w = w ∨ '\n' ∈ f w := by
    refine ⟨_, _, h.format_eq.symm, fun w => ?_⟩
    split
    · exact .inr (by decide)
    · exact .inl rfl
  refine ⟨_, fun w hw => ?_, hu⟩
  obtain ⟨v, hv, rfl⟩ := List.mem_map.1 hw
  rcases hf v with hv' | hv'
  · rw [hv']
    exact Text.areWords_words u v hv
  · -- the marker of code becomes a fence on a line of its own, and there is no such line
    exact absurd (hu ▸ Text.mem_unwords hw hv') h.break_notMem

variable {t : Text}

theorem allBlank_replicate (n : Nat) : Text.allBlank (List.replicate n ' ') = true := by
  induction n with
  | zero => rfl
  | succ n ih => exact ih

/-- Behind a bullet there is nothing to trim but the space before an empty text. -/
theorem IsItemText.trimEnd_cons (h : IsItemText t) :
    Text.trimEnd (' ' :: t) = if t.isEmpty then [] else ' ' :: t := by
  obtain ⟨ws, hws, rfl⟩ := h.exists_words
  rcases ws with _ | ⟨w, ws⟩
  · rfl
  · obtain ⟨u, c, hu, hc⟩ := Text.unwords_eq_concat (List.cons_ne_nil w ws) hws
    rw [hu, if_neg (by simp), ← List.cons_append, Text.trimEnd_concat hc]

theorem IsItemText.trimStart_eq (h : IsItemText t) : Text.trimStart t = t := by
  obtain ⟨ws, hws, rfl⟩ := h.exists_words
  rcases ws with _ | ⟨w, ws⟩
  · rfl
  · exact Text.trimStart_unwords (List.cons_ne_nil w ws) hws

/-! ## The line of an item -/

/-- A bullet without what stands before it, and the text behind it as far as it is not blank. -/
theorem trim_bulletLine (n : Nat) (t : Text) :
    Text.trim (bulletLine n t) = '-' :: Text.trimEnd (' ' :: t) := by
  rw [bulletLine, indentLine, Text.trim_append_of_allBlank (allBlank_replicate n),
    Text.trim_cons (by decide)]

theorem words_bulletLine (n : Nat) (t : Text) : (bulletLine n t).words = ['-'] :: t.words := by
  have hbullet : ('-' :: ' ' :: t) = ['-'] ++ ' ' :: t := rfl
  rw [bulletLine, indentLine, Text.words_append_of_allBlank (allBlank_replicate n), hbullet,
    Text.words_append_blank (by decide)]
  rfl

theorem indentation_bulletLine (n : Nat) (t : Text) : (bulletLine n t).indentation = n := by
  have hspaces : ∀ c ∈ List.replicate n ' ', isIndent c = true := by
    intro c hc
    rw [List.eq_of_mem_replicate hc]
    rfl
  rw [bulletLine, indentLine, Text.indentation_append hspaces, List.length_replicate,
    Text.indentation_cons (by decide), Nat.add_zero]

namespace Comment

variable {n : Nat}

theorem dropStar_bulletLine (hn : n ≠ 0) (t : Text) :
    dropStar (bulletLine n t) = bulletLine n t := by
  obtain ⟨m, rfl⟩ := Nat.exists_eq_succ_of_ne_zero hn
  have hspace : bulletLine (m + 1) t = ' ' :: bulletLine m t := rfl
  have hstar : Text.trim (bulletLine (m + 1) t) ≠ ['*'] := by
    rw [trim_bulletLine]
    exact fun h => absurd (List.cons.inj h).1 (by decide)
  rw [dropStar.eq_def]
  split
  · next h =>
    rw [hspace] at h
    exact absurd (List.cons.inj h).1 (by decide)
  · exact if_neg hstar

/-- The line of an item goes on with the line before it. -/
theorem isContinuation_bulletLine (h : IsItemText t) (hn : n ≠ 0) :
    IsContinuation (bulletLine n t) where
  indentation_ne := by rwa [dropStar_bulletLine hn, indentation_bulletLine]
  allBlank_eq := by
    rw [dropStar_bulletLine hn, Text.allBlank, List.all_eq_false]
    exact ⟨'-', List.mem_append_right _ List.mem_cons_self, by decide⟩
  openCode?_eq := by
    rw [dropStar_bulletLine hn]
    apply openCode?_of_forall
    rw [words_bulletLine]
    exact List.forall_mem_cons.2 ⟨by decide, h.opensCode_eq⟩
  leadsNowhere_eq := by
    rw [dropStar_bulletLine hn, trim_bulletLine]
    refine leadsNowhere_of_head? fun token htoken => ?_
    rw [Token.kind_of_mem_head?_scan htoken]
    decide

/-- The line of an item says its text, at its column. -/
theorem readIndented_bulletLine (h : IsItemText t) (n : Nat) :
    readIndented (bulletLine n t) = ⟨t, n, true⟩ := by
  have hitem : isItem ('-' :: Text.trimEnd (' ' :: t)) = true := by
    rw [h.trimEnd_cons]
    cases t <;> rfl
  have htext : Text.trimStart (Text.trimEnd (' ' :: t)) = t := by
    rw [h.trimEnd_cons]
    rcases t with _ | ⟨c, t⟩
    · rfl
    · exact h.trimStart_eq
  simp only [readIndented, trim_bulletLine, indentation_bulletLine, hitem, if_true]
  rw [List.drop_one, List.tail_cons, htext, h.format_eq]

namespace Nesting

/-- The columns of some levels, two further right for each level. -/
def levels (column : Nat) : (count : Nat) → List Nat
  | 0 => []
  | count + 1 => (column + 2 * count) :: levels column count

theorem dropWhile_levels (column : Nat) {level count : Nat} (h : level < count) :
    (levels column count).dropWhile (column + 2 * level + 1 < ·) = levels column (level + 1) := by
  induction count with
  | zero => omega
  | succ count ih =>
    rw [levels, List.dropWhile_cons]
    by_cases hl : level = count
    · subst hl
      rw [if_neg (by simp)]
      rfl
    · rw [if_pos (by simp; omega)]
      exact ih (by omega)

/-- A line at the column of a level leaves that level and those further left open. -/
theorem enter_levels {column level count : Nat} (hc : 2 ≤ column) (h : level ≤ count) :
    (Nesting.mk (levels column count)).enter (column + 2 * level) =
      ⟨levels column (level + 1)⟩ := by
  rcases count with _ | count
  · obtain rfl : level = 0 := by omega
    exact if_pos (by simpa [levels, innermost] using hc)
  · have hinnermost : (Nesting.mk (levels column (count + 1))).innermost = column + 2 * count := rfl
    rw [enter, hinnermost]
    by_cases hnew : level = count + 1
    · subst hnew
      exact if_pos (by omega)
    · rw [if_neg (by omega)]
      by_cases hback : level = count
      · subst hback
        exact if_neg (by omega)
      · rw [if_pos (by omega), dropWhile_levels column (by omega)]

theorem depth_levels (column level : Nat) :
    (Nesting.mk (levels column (level + 1))).depth = level := by
  have hlength : (levels column level).length = level := by
    induction level with
    | zero => rfl
    | succ level ih => rw [levels, List.length_cons, ih]
  rw [depth, levels, List.length_cons, hlength]
  rfl

end Nesting

/-! ## Reading a list -/

variable {column : Nat}

/-- The state in which an outline is read as text, below some elements, and some levels are
open. -/
def State.inList (es : List Element) (o : Outline) (column count : Nat) : State :=
  ⟨.plain o :: es, ⟨Nesting.levels column count⟩, none⟩

theorem State.takeIndented_inList (hc : 2 ≤ column) (es : List Element) (nodes : List Outline)
    (o : Outline) {count : Nat} (h : nodes.length ≤ count) (t : Text) :
    ((inList es (Outline.within nodes o) column count).takeIndented
        ⟨t, column + 2 * nodes.length, true⟩).1 =
      inList es (Outline.within nodes (o.addItem t)) column (nodes.length + 1) := by
  have htakes : (inList es (Outline.within nodes o) column count).takesLines = true := rfl
  have henter : (inList es (Outline.within nodes o) column count).enter
      (column + 2 * nodes.length) =
        inList es (Outline.within nodes o) column (nodes.length + 1) := by
    rw [State.enter, inList, Nesting.enter_levels hc h]
    rfl
  have hdepth : (inList es (Outline.within nodes o) column (nodes.length + 1)).nesting.depth =
      nodes.length := Nesting.depth_levels column nodes.length
  rw [takeIndented_of_item htakes rfl, henter, hdepth]
  exact congrArg (inList es · column (nodes.length + 1)) (Outline.modifyEdge_within _ nodes o)

/-- The first line of an item adds it to the node around it. -/
theorem State.step_bulletLine (hc : 2 ≤ column) {t : Text} (ht : IsItemText t) (es : List Element)
    (nodes : List Outline) (o : Outline) {count : Nat} (h : nodes.length ≤ count) :
    (inList es (Outline.within nodes o) column count).step
        (bulletLine (column + 2 * nodes.length) t) =
      .ok (inList es (Outline.within nodes (o.addItem t)) column (nodes.length + 1)) := by
  have hn : column + 2 * nodes.length ≠ 0 := by omega
  rw [step_of_isContinuation (isContinuation_bulletLine ht hn) rfl, dropStar_bulletLine hn,
    readIndented_bulletLine ht, takeIndented_inList hc es nodes o h]

/-- Lines add items to the last of some nodes, whatever levels the lines before have left open. -/
def ReadsItems (es : List Element) (nodes : List Outline) (column : Nat) (ls : List Text)
    (ps : List Outline) : Prop :=
  ∀ (o : Outline) (count : Nat), nodes.length ≤ count → ∃ count', nodes.length ≤ count' ∧
    readLines (.inList es (Outline.within nodes o) column count) ls =
      .ok (.inList es (Outline.within nodes (o.addItems ps)) column count')

variable {es : List Element} {nodes : List Outline}

theorem ReadsItems.nil : ReadsItems es nodes column [] [] := by
  intro o count h
  refine ⟨count, h, ?_⟩
  rw [Outline.addItems_nil]
  rfl

theorem ReadsItems.append {ls ms : List Text} {ps qs : List Outline}
    (hls : ReadsItems es nodes column ls ps) (hms : ReadsItems es nodes column ms qs) :
    ReadsItems es nodes column (ls ++ ms) (ps ++ qs) := by
  intro o count h
  obtain ⟨count₁, h₁, hread⟩ := hls o count h
  obtain ⟨count', h', hread'⟩ := hms (o.addItems ps) count₁ h₁
  refine ⟨count', h', ?_⟩
  rw [readLines_append_of_ok hread, hread', Outline.addItems_addItems]

/-- Items that can be read one by one can be read one after the other. -/
theorem readsItems_listLines {n : Nat} {ps : List Outline}
    (hps : ∀ p ∈ ps, ReadsItems es nodes column (p.itemLines n) [p]) :
    ReadsItems es nodes column (Outline.listLines n ps) ps := by
  induction ps with
  | nil => exact .nil
  | cons p ps ih =>
    rw [Outline.listLines]
    exact (hps p List.mem_cons_self).append (ih fun q hq => hps q (List.mem_cons_of_mem _ hq))

/-- **An item is read back to where it was written.** The lines of an item add it, with all that is
below it, to the last of the nodes around it. -/
theorem readsItems_itemLines (hc : 2 ≤ column) {p : Outline} (hp : p.All IsItemText)
    (es : List Element) (nodes : List Outline) :
    ReadsItems es nodes column (p.itemLines (column + 2 * nodes.length)) [p] := by
  induction hp generalizing nodes with
  | @intro p htop _ ih =>
    intro o count h
    have hlength : (nodes ++ [o]).length = nodes.length + 1 := List.length_append
    -- the item is open now, so the items below it are read within one node more
    have hopen : Outline.within nodes (o.addItem p.top) =
        Outline.within (nodes ++ [o]) (.leaf p.top) := (Outline.within_concat nodes o _).symm
    have hsub : ReadsItems es (nodes ++ [o]) column
        (Outline.listLines (column + 2 * nodes.length + 2) p.sub) p.sub := by
      refine readsItems_listLines fun q hq => ?_
      have hread := ih q hq (nodes ++ [o])
      rwa [hlength, Nat.mul_succ, ← Nat.add_assoc] at hread
    obtain ⟨count', h', hread⟩ := hsub (.leaf p.top) (nodes.length + 1) (Nat.le_of_eq hlength)
    refine ⟨count', by omega, ?_⟩
    rw [Outline.itemLines_eq, Text.hang_of_notMem _ htop.break_notMem,
      readLines_cons_of_ok (State.step_bulletLine hc htop es nodes o h), hopen, hread,
      Outline.within_concat, Outline.addItems_leaf]

/-! ## The whole comment -/

theorem exists_bulletLine {p : Outline} (hp : p.All IsItemText) {n : Nat} {l : Text}
    (hl : l ∈ p.itemLines n) : ∃ m t, l = bulletLine m t ∧ IsItemText t := by
  induction hp generalizing n with
  | intro htop _ ih =>
    rw [Outline.itemLines_eq, Text.hang_of_notMem _ htop.break_notMem, Outline.listLines_eq] at hl
    rcases List.mem_cons.1 hl with rfl | hl
    · exact ⟨_, _, rfl, htop⟩
    · obtain ⟨q, hq, hl⟩ := List.mem_flatMap.1 hl
      exact ih q hq hl

theorem break_notMem_bulletLine {t : Text} (ht : IsItemText t) (n : Nat) :
    '\n' ∉ bulletLine n t := by
  rw [bulletLine, indentLine, List.mem_append, List.mem_cons, List.mem_cons]
  rintro (h | h | h | h)
  · exact Text.break_notMem_replicate n h
  · exact absurd h (by decide)
  · exact absurd h (by decide)
  · exact ht.break_notMem h

theorem getLast?_ne_return {t : Text} (ht : IsItemText t) : t.getLast? ≠ some '\r' := by
  obtain ⟨ws, hws, rfl⟩ := ht.exists_words
  rcases ws with _ | ⟨w, ws⟩
  · exact Option.some_ne_none _ |>.symm
  · exact Text.getLast?_unwords_ne (by decide) (List.cons_ne_nil w ws) hws

theorem getLast?_bulletLine_ne_return {t : Text} (ht : IsItemText t) (n : Nat) :
    (bulletLine n t).getLast? ≠ some '\r' := by
  have hreturn := getLast?_ne_return ht
  rcases t.eq_nil_or_concat with rfl | ⟨u, c, rfl⟩
  · have hline : bulletLine n [] = indentLine n ['-'] ++ [' '] := by
      simp only [bulletLine, indentLine, List.append_assoc, List.singleton_append]
    rw [hline, List.getLast?_concat]
    decide
  · have hline : bulletLine n (u ++ [c]) = bulletLine n u ++ [c] := by
      simp only [bulletLine, indentLine, List.append_assoc, List.cons_append]
    rw [List.concat_eq_append, hline, List.getLast?_concat]
    rwa [List.concat_eq_append, List.getLast?_concat] at hreturn

/-- At the margin, a text is an element that says it. -/
theorem State.step_marginText {t : Text} (ht : IsItemText t) (hm : IsMarginText t) {s : State}
    (hc : s.code = none) : s.step t = .ok (s.push (.plain (.leaf t))) := by
  obtain ⟨ws, hws, hwords⟩ := ht.exists_words
  have hne : ws ≠ [] := by
    rintro rfl
    exact hm.ne_nil hwords
  have htrim : t.trim = t := by rw [hwords, Text.trim_unwords hne hws]
  have hstar : dropStar t = t := by
    rw [dropStar.eq_def]
    split
    · exact absurd hm.startsWith_eq_false (by simp [Text.startsWith, Text.after?])
    · rw [htrim]
      exact if_neg hm.ne_star
  have hopen : openCode? (dropStar t) = none := hstar.symm ▸ openCode?_of_forall ht.opensCode_eq
  obtain ⟨c, u, hcons, hb, -⟩ := Text.unwords_eq_cons hne hws
  rw [← hwords] at hcons
  have hmarker : ∀ token ∈ (Token.scan t).head?, token.kind ≠ .marker := by
    intro token htoken
    obtain ⟨hat, hback⟩ := hm.hasNoMarker
    rw [hcons] at htoken hat hback
    rw [Token.kind_of_mem_head?_scan htoken]
    exact Token.kindOf_ne_marker (fun h => hat (congrArg some h)) fun h => hback (congrArg some h)
  have hread : readLine t = .ok (.element (.plain (.leaf t))) := by
    have hblank : t.allBlank = false := by rw [hcons, Text.allBlank_cons hb]
    have hindent : t.indentation = 0 := by rw [hcons, Text.indentation_cons hb]
    rw [readLine, hblank, htrim, readTokens_of_head? hindent hmarker, plainLine, ht.format_eq]
    rfl
  rw [step_of_plain hc hopen, hstar, takeLine_of_element hread]
  rfl

/-- The lines of an outline with a list, and no others. -/
theorem sourceLines_render {o : Outline} (ho : o.All IsItemText) (hne : o.top ≠ []) (column : Nat) :
    sourceLines (o.render column) = o.top :: Outline.listLines column o.sub := by
  have hlines : ∀ l ∈ o.top :: Outline.listLines column o.sub,
      '\n' ∉ l ∧ l.getLast? ≠ some '\r' := by
    intro l hl
    rcases List.mem_cons.1 hl with rfl | hl
    · exact ⟨ho.top.break_notMem, getLast?_ne_return ho.top⟩
    · rw [Outline.listLines_eq] at hl
      obtain ⟨p, hp, hl⟩ := List.mem_flatMap.1 hl
      obtain ⟨n, t, rfl, ht⟩ := exists_bulletLine (ho.sub p hp) hl
      exact ⟨break_notMem_bulletLine ht n, getLast?_bulletLine_ne_return ht n⟩
  rw [Outline.render, List.isEmpty_eq_false_iff.2 hne]
  exact sourceLines_unlines (List.cons_ne_nil _ _) (fun l hl => (hlines l hl).1)
    fun l hl => (hlines l hl).2

/-- **Nested lists are read as they are written.** An outline that is written as a paragraph with a
list below it, at a column of two or more, is read back as one element that is this outline. Its
texts need to be lines that mean nothing but themselves; those of its items may be empty or begin
with a bullet. -/
theorem elements_render {o : Outline} (ho : o.All IsItemText) (hm : IsMarginText o.top)
    {column : Nat} (hc : 2 ≤ column) :
    elements (o.render column) = .ok [.plain o, .separator] := by
  have hfirst : State.step {} o.top = .ok (.inList [] (.leaf o.top) column 0) :=
    State.step_marginText ho.top hm rfl
  have hitems : ReadsItems [] [] column (Outline.listLines column o.sub) o.sub :=
    readsItems_listLines fun p hp => readsItems_itemLines hc (ho.sub p hp) [] []
  obtain ⟨count, -, hread⟩ := hitems (.leaf o.top) 0 (Nat.le_refl 0)
  have hstate : stateAfter (o.render column) = .ok (.inList [] o column count) := by
    rw [stateAfter, sourceLines_render ho hm.ne_nil, readLines_cons_of_ok hfirst]
    exact hread.trans (congrArg (fun p => Except.ok (State.inList [] p column count))
      (Outline.addItems_leaf o))
  rw [elements_of_ok hstate, State.finish_of_code_eq_none rfl]
  rfl

/-- An empty item, an item that begins with a bullet, and a line that closes two levels at once. -/
theorem elements_render_three_levels :
    elements "List:\n   - a\n     - \n       - - x\n   - * y".toList =
      .ok [.plain ⟨"List:".toList, [⟨"a".toList, [⟨[], [.leaf "- x".toList]⟩]⟩,
        .leaf "* y".toList]⟩, .separator] := by
  have hempty : (⟨[], [.leaf "- x".toList]⟩ : Outline).All IsItemText :=
    ⟨by decide, List.forall_mem_singleton.2 (Outline.all_leaf (by decide))⟩
  have hdeep : (⟨"a".toList, [⟨[], [.leaf "- x".toList]⟩]⟩ : Outline).All IsItemText :=
    ⟨by decide, List.forall_mem_singleton.2 hempty⟩
  have hlast : (Outline.leaf "* y".toList).All IsItemText := Outline.all_leaf (by decide)
  have htext : Outline.render 3 ⟨"List:".toList, [⟨"a".toList, [⟨[], [.leaf "- x".toList]⟩]⟩,
      .leaf "* y".toList]⟩ = "List:\n   - a\n     - \n       - - x\n   - * y".toList := by decide
  rw [← htext]
  exact elements_render
    ⟨by decide, List.forall_mem_cons.2 ⟨hdeep, List.forall_mem_singleton.2 hlast⟩⟩
    ⟨by decide, ⟨by decide, by decide⟩, by decide, by decide⟩ (by decide)

end Comment

end DoxygenMarkdown

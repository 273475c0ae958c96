import DoxygenMarkdown.Proofs.Comment.LeadingTag
import DoxygenMarkdown.Proofs.Fences.Reading

/-!
# When a comment cannot be read

A comment can be read unless a line outside code begins with the tag of a parameter whose qualifier
is no direction (`Misdirects`). Then the error tells what stands behind the bracket, for the first
such line (`elements_eq_error_iff`).

* Which lines are outside code is told by the lines alone, without what they are read as
  (`opensBelow`). Of a line that opens a block, only the words before the tag are read
  (`proseParts`).
* A step fails exactly if reading such a part fails (`State.step_eq_error_iff`), and nothing else
  ever does.

There would be another way to fail: to look for a token that is not there. The reader looks at
tokens by patterns, where this cannot happen. So the same is written down with the numbers of the
tokens, one test after the other, and without a result where there is no token with that number
(`Numbered`). There always is one (`Numbered.readLine?_eq`, `Numbered.readOpening?_eq`).
-/

namespace DoxygenMarkdown.Comment

/-! ## Lines that misdirect -/

/-- The qualifiers that a parameter may have. -/
def qualifiers : List Text := ["[]", "[in]", "[out]", "[in,out]", "[out,in]"].map String.toList

/-- A line at the margin misdirects if it begins with a marker and the tag of a parameter, in any
letter case, with a qualifier that is none. Behind its bracket stands what was found. -/
structure Misdirects (line found : Text) : Prop where
  indentation_eq : line.indentation = 0
  exists_scan : ∃ marker word more,
    Token.scan line.trim = ⟨.marker, marker⟩ :: ⟨.word, word⟩ :: more ∧
    Text.lower (word.takeWhile (· ≠ '[')) = "param".toList ∧
    word.dropWhile (· ≠ '[') = '[' :: found
  notMem : '[' :: found ∉ qualifiers

theorem readDirection_eq_error_iff {qualifier : Text} {e : DirectionError} :
    readDirection qualifier = .error e ↔
      qualifier ∉ [] :: qualifiers ∧ e = { found := qualifier.tail } := by
  have hnames : directions.map (·.1.toList) = [] :: qualifiers := by decide
  rw [← hnames, List.mem_map, readDirection]
  split
  · next entry hfind =>
    have hentry := List.find?_some hfind
    exact iff_of_false (ok_ne_error _ e) fun h =>
      h.1 ⟨entry, List.mem_of_find?_eq_some hfind, of_decide_eq_true hentry⟩
  · next hfind =>
    rw [List.find?_eq_none] at hfind
    rw [Except.error.injEq, eq_comm]
    refine (and_iff_right ?_).symm
    rintro ⟨entry, hentry, hname⟩
    exact hfind entry hentry (decide_eq_true hname)

theorem readTagged_eq_error_iff {line word : Text} {e : DirectionError} :
    readTagged line word = .error e ↔
      Text.lower (word.takeWhile (· ≠ '[')) = "param".toList ∧
        readDirection (word.dropWhile (· ≠ '[')) = .error e := by
  by_cases htag : Tag.isKnown (Text.lower (word.takeWhile (· ≠ '['))) = true ∧
      Text.lower (word.takeWhile (· ≠ '[')) ≠ Tag.code
  · rw [readTagged_of_known rfl htag.1 htag.2, map_eq_error_iff]
    by_cases hparam : Text.lower (word.takeWhile (· ≠ '[')) = "param".toList
    · rw [if_pos hparam, and_iff_right hparam]
    · rw [if_neg hparam]
      exact iff_of_false (ok_ne_error _ e) fun h => hparam h.1
  · rw [readTagged_of_unknown rfl htag]
    refine iff_of_false (ok_ne_error _ e) fun h => htag ?_
    rw [h.1]
    decide

/-- A word of which something is left from its bracket on has that bracket. -/
theorem exists_of_dropWhile_ne_nil {w : Text} (h : w.dropWhile (· ≠ '[') ≠ []) :
    ∃ found, w.dropWhile (· ≠ '[') = '[' :: found := by
  obtain ⟨c, found, hcons⟩ := List.exists_cons_of_ne_nil h
  have hc : c ∈ (w.dropWhile (· ≠ '[')).head? := by rw [hcons]; rfl
  obtain rfl : c = '[' := by simpa using Text.eq_false_of_mem_head?_dropWhile hc
  exact ⟨found, hcons⟩

/-- An indented line can be read. -/
theorem readLine_ne_error_of_indented {line : Text} (h : line.indentation ≠ 0)
    (e : DirectionError) : readLine line ≠ .error e := by
  rw [readLine]
  split
  · exact ok_ne_error _ e
  rw [readTokens.eq_def]
  split
  · exact ok_ne_error _ e
  · exact ok_ne_error _ e
  · exact ok_ne_error _ e
  · rw [if_pos h]
    exact ok_ne_error _ e

/-- **A line cannot be read exactly if it misdirects.** -/
theorem readLine_eq_error_iff {line : Text} {e : DirectionError} :
    readLine line = .error e ↔ ∃ found, Misdirects line found ∧ e = { found := found } := by
  by_cases hmargin : line.indentation = 0
  · constructor
    · intro h
      rcases readLine_cases hmargin with ⟨x, word, more, hscan, hread⟩ | ⟨e', hread, -⟩
      · rw [hread, map_eq_error_iff] at h
        obtain ⟨hparam, hdirection⟩ := readTagged_eq_error_iff.1 h
        obtain ⟨hnotMem, rfl⟩ := readDirection_eq_error_iff.1 hdirection
        rw [List.mem_cons, not_or] at hnotMem
        obtain ⟨hne, hnotMem⟩ := hnotMem
        obtain ⟨found, hfound⟩ := exists_of_dropWhile_ne_nil hne
        rw [hfound] at hnotMem
        refine ⟨found, ⟨hmargin, ⟨x, word, more, hscan, hparam, hfound⟩, hnotMem⟩, ?_⟩
        rw [hfound]
        rfl
      · rw [hread] at h
        cases h
    · rintro ⟨found, ⟨-, ⟨x, word, more, hscan, hparam, hfound⟩, hnotMem⟩, rfl⟩
      have htagged : readTagged line word = .error { found := found } := by
        rw [readTagged_eq_error_iff, hfound, readDirection_eq_error_iff]
        refine ⟨hparam, ?_, rfl⟩
        rw [List.mem_cons, not_or]
        exact ⟨List.cons_ne_nil _ _, hnotMem⟩
      rwa [readLine_of_word hmargin hscan, map_eq_error_iff]
  · refine iff_of_false (readLine_ne_error_of_indented hmargin e) ?_
    rintro ⟨found, h, -⟩
    exact hmargin h.indentation_eq

/-! ## Lines outside code -/

/-- Whether code is open below a line, if it is or is not above it. -/
def opensBelow (inCode : Bool) (raw : Text) : Bool :=
  if inCode then !Marker.leads (dropStar raw) Tag.endCode else (openCode? (dropStar raw)).isSome

/-- What is read by itself of a line outside code. -/
def prosePart? (inCode : Bool) (raw : Text) : Option Text :=
  if inCode then none else prose? (dropStar raw)

/-- What is read by itself of some lines: each line outside code, and of one that opens a block what
stands before the tag. -/
def proseParts : (inCode : Bool) → List Text → List Text
  | _, [] => []
  | inCode, raw :: ls => (prosePart? inCode raw).toList ++ proseParts (opensBelow inCode raw) ls

namespace State

variable {s s' : State} {raw : Text} {e : DirectionError}

theorem takeLine_eq_error_iff {line : Text} :
    s.takeLine line = .error e ↔ readLine line = .error e := by
  rcases hread : readLine line with e' | ⟨e' | l⟩
  · rw [takeLine_of_error hread]
    exact error_eq_error_iff
  · rw [takeLine_of_element hread]
    exact iff_of_false (ok_ne_error _ e) (ok_ne_error _ e)
  · rw [takeLine_of_indented hread]
    exact iff_of_false (ok_ne_error _ e) (ok_ne_error _ e)

/-- A line can be taken in exactly if what is read of it by itself can be read. -/
theorem step_eq_error_iff :
    s.step raw = .error e ↔
      ∃ line ∈ prosePart? s.code.isSome raw, readLine line = .error e := by
  rcases hc : s.code with _ | block
  · rw [show prosePart? (Option.isSome none) raw = prose? (dropStar raw) from rfl, prose?]
    rcases ho : openCode? (dropStar raw) with _ | ⟨before, opener⟩
    · rw [step_of_plain hc ho, map_eq_error_iff, takeLine_eq_error_iff]
      simp
    · rw [step_of_opens hc ho]
      by_cases hw : before = []
      · subst hw
        refine iff_of_false ?_ (by simp)
        by_cases hi : (dropStar raw).indentation ≠ 0 ∧ s.takesLines = true
        · rw [beginCode_of_indented hi]
          exact ok_ne_error _ e
        · rw [beginCode_of_element hi]
          exact ok_ne_error _ e
      · rw [beginCode_of_words hw, map_eq_error_iff, takeLine_eq_error_iff]
        simp [hw]
  · rw [step_of_code hc]
    exact iff_of_false (ok_ne_error _ e) (by simp [prosePart?])

/-- Whether code is open is told by the lines. -/
theorem isSome_code_step (h : s.step raw = .ok s') :
    s'.code.isSome = opensBelow s.code.isSome raw := by
  cases stepsTo_of_step h with
  | line hc ho _ hl =>
    rw [takeLine_code hl, hc]
    simp [opensBelow, ho]
  | opens hc before opener ho hb =>
    rw [Option.isSome_iff_ne_none.2 (code_ne_of_beginCode hb), hc]
    simp [opensBelow, ho]
  | closes block hc hend hs' =>
    rw [hs', endCode_code, hc]
    simp [opensBelow, hend]
  | code block hc hend hs' =>
    rw [hs', addCode, code_modifyLast, hc]
    simp [opensBelow, hend]

end State

/-! ## All lines -/

/-- The first of some texts that misdirects, and the error that it makes. -/
def FailsAt (parts : List Text) (e : DirectionError) : Prop :=
  ∃ before l after found, parts = before ++ l :: after ∧
    (∀ k ∈ before, ∀ f, ¬ Misdirects k f) ∧ Misdirects l found ∧ e = { found := found }

theorem failsAt_nil (e : DirectionError) : ¬ FailsAt [] e := by
  rintro ⟨before, l, after, -, hparts, -⟩
  exact List.append_ne_nil_of_right_ne_nil _ (List.cons_ne_nil _ _) hparts.symm

theorem failsAt_cons_iff {l : Text} {ls : List Text} {e : DirectionError} :
    FailsAt (l :: ls) e ↔
      readLine l = .error e ∨ (∀ e', readLine l ≠ .error e') ∧ FailsAt ls e := by
  constructor
  · rintro ⟨_ | ⟨k, before⟩, m, after, found, hparts, hbefore, hm, rfl⟩
    · obtain ⟨rfl, -⟩ := List.cons.inj hparts
      exact .inl (readLine_eq_error_iff.2 ⟨found, hm, rfl⟩)
    · obtain ⟨rfl, rfl⟩ := List.cons.inj hparts
      obtain ⟨hl, hbefore⟩ := List.forall_mem_cons.1 hbefore
      refine .inr ⟨fun e' he' => ?_, before, m, after, found, rfl, hbefore, hm, rfl⟩
      obtain ⟨f, hf, -⟩ := readLine_eq_error_iff.1 he'
      exact hl f hf
  · rintro (h | ⟨hl, before, m, after, found, rfl, hbefore, hm, rfl⟩)
    · obtain ⟨found, hl, rfl⟩ := readLine_eq_error_iff.1 h
      exact ⟨[], l, ls, found, rfl, fun k hk => absurd hk List.not_mem_nil, hl, rfl⟩
    · refine ⟨l :: before, m, after, found, rfl, List.forall_mem_cons.2 ⟨fun f hf => ?_, hbefore⟩,
        hm, rfl⟩
      exact hl _ (readLine_eq_error_iff.2 ⟨f, hf, rfl⟩)

theorem failsAt_toList_append_iff {part? : Option Text} {ls : List Text} {e : DirectionError} :
    FailsAt (part?.toList ++ ls) e ↔
      (∃ l ∈ part?, readLine l = .error e) ∨
        (∀ l ∈ part?, ∀ e', readLine l ≠ .error e') ∧ FailsAt ls e := by
  cases part? with
  | none => simp
  | some l => simpa using failsAt_cons_iff

/-- Lines cannot be read exactly if one of their parts misdirects, and the first one that does makes
the error. -/
theorem readLines_eq_error_iff {ls : List Text} {s : State} {e : DirectionError} :
    readLines s ls = .error e ↔ FailsAt (proseParts s.code.isSome ls) e := by
  induction ls generalizing s with
  | nil => exact iff_of_false (ok_ne_error s e) (failsAt_nil e)
  | cons raw ls ih =>
    rw [readLines_cons, proseParts, failsAt_toList_append_iff, ← State.step_eq_error_iff]
    rcases hstep : s.step raw with e' | s'
    · -- no line below this one is read
      have hpart : ¬ ∀ l ∈ prosePart? s.code.isSome raw, ∀ e, readLine l ≠ .error e := by
        obtain ⟨l, hl, hread⟩ := State.step_eq_error_iff.1 hstep
        exact fun h => h l hl e' hread
      refine Iff.trans ?_ (or_iff_left fun h => hpart h.1).symm
      exact error_eq_error_iff
    · have hpart : ∀ l ∈ prosePart? s.code.isSome raw, ∀ e, readLine l ≠ .error e := by
        intro l hl e' hread
        have herror := State.step_eq_error_iff.2 ⟨l, hl, hread⟩
        rw [hstep] at herror
        cases herror
      rw [or_iff_right (ok_ne_error s' e), and_iff_right hpart, ← State.isSome_code_step hstep]
      exact ih

/-- Among texts of which one misdirects, there is a first one. -/
theorem exists_failsAt_iff {parts : List Text} :
    (∃ e, FailsAt parts e) ↔ ∃ l ∈ parts, ∃ found, Misdirects l found := by
  constructor
  · rintro ⟨e, before, l, after, found, rfl, -, hl, -⟩
    exact ⟨l, List.mem_append_right _ List.mem_cons_self, found, hl⟩
  · rintro ⟨l, hl, found, hfound⟩
    induction parts with
    | nil => cases hl
    | cons k parts ih =>
      rcases hk : readLine k with e | r
      · exact ⟨e, failsAt_cons_iff.2 (.inl hk)⟩
      · have hread : ∀ e, readLine k ≠ .error e := fun e he => by
          rw [hk] at he
          cases he
        rcases List.mem_cons.1 hl with rfl | hl
        · exact absurd (readLine_eq_error_iff.2 ⟨found, hfound, rfl⟩) (hread _)
        · obtain ⟨e, he⟩ := ih hl
          exact ⟨e, failsAt_cons_iff.2 (.inr ⟨hread, he⟩)⟩

/-! ## Tokens by their numbers -/

namespace Numbered

/-- Whether tokens begin with a marker and have a token of some kind behind it. -/
def marks? (kind : Token.Kind) (tokens : List Token) : Option Bool := do
  let first ← tokens[0]?
  if first.kind = .marker then
    let second ← tokens[1]?
    return second.kind = kind
  else return false

/-- Whether tokens begin with a marker that introduces nothing. -/
def isBare? (tokens : List Token) : Option Bool := do
  let first ← tokens[0]?
  if first.kind = .marker ∧ tokens.length = 1 then return true
  else marks? .blank tokens

/-- Read a line outside code. -/
def readLine? (line : Text) : Option (Except DirectionError Reading) :=
  if line.allBlank then some (.ok (.element .separator))
  else do
    let tokens := Token.scan line.trim
    if ← isBare? tokens then return .ok (.element .bareMarker)
    else if ← marks? .brace tokens then
      let second ← tokens[1]?
      return .ok (.element (if second.text = ['{'] then .groupOpen else .groupClose))
    else if line.indentation ≠ 0 then return .ok (.indented (readIndented line))
    else if ← marks? .word tokens then
      let second ← tokens[1]?
      return Reading.element <$> readTagged line second.text
    else return .ok (.element (plainLine line))

/-- Whether tokens begin with a word in braces. -/
def namesLanguage? (tokens : List Token) : Option Bool :=
  if tokens.length < 3 then some false
  else do
    let first ← tokens[0]?
    let second ← tokens[1]?
    let third ← tokens[2]?
    return first = ⟨.brace, ['{']⟩ && second.kind = .word && third = ⟨.brace, ['}']⟩

/-- Read what follows the tag that opens a block of code. -/
def readOpening? (tokens : List Token) : Option Opening := do
  if ← namesLanguage? tokens then
    let second ← tokens[1]?
    let language := second.text.dropWhile (· == '.')
    return ⟨[language], fenceText language (Token.concat (tokens.drop 3)).trim⟩
  else return ⟨[], fenceText [] (Token.concat tokens).trim⟩

theorem scan_trim_ne_nil {line : Text} (h : ¬ line.allBlank = true) :
    Token.scan line.trim ≠ [] := by
  intro hscan
  rw [Text.allBlank, List.all_eq_true, Classical.not_forall] at h
  obtain ⟨c, h⟩ := h
  obtain ⟨hc, hblank⟩ := Classical.not_imp.1 h
  have hmem : c ∈ Token.concat (Token.scan line.trim) := by
    rw [Token.concat_scan]
    exact Text.mem_trim (Bool.eq_false_iff.2 hblank) hc
  rw [hscan] at hmem
  cases hmem

/-- A line is read without looking for a token that is not there. -/
theorem readLine?_eq (line : Text) : readLine? line = some (readLine line) := by
  rw [readLine?, readLine]
  split
  · rfl
  · next hblank =>
    obtain ⟨⟨kind, x⟩, more, hscan⟩ := List.exists_cons_of_ne_nil (scan_trim_ne_nil hblank)
    rw [hscan]
    by_cases hmarker : kind = .marker
    · subst hmarker
      rcases more with _ | ⟨⟨kind, y⟩, more⟩
      · -- a marker by itself is found by the length, so nothing is looked for behind it
        rfl
      · cases kind <;> simp [isBare?, marks?, readTokens]
        all_goals split <;> rfl
    · cases kind <;> simp [isBare?, marks?, readTokens] at hmarker ⊢
      all_goals split <;> rfl

theorem namesLanguage?_cons (first second third : Token) (more : List Token) :
    namesLanguage? (first :: second :: third :: more) =
      some (first = ⟨.brace, ['{']⟩ && second.kind = .word && third = ⟨.brace, ['}']⟩) := by
  rw [namesLanguage?, if_neg (by simp only [List.length_cons]; omega)]
  rfl

/-- The start of a block of code is read without looking for a token that is not there. -/
theorem readOpening?_eq (tokens : List Token) :
    readOpening? tokens = some (readOpening tokens) := by
  by_cases hnames : ∃ word more,
      tokens = ⟨.brace, ['{']⟩ :: ⟨.word, word⟩ :: ⟨.brace, ['}']⟩ :: more
  · obtain ⟨word, more, rfl⟩ := hnames
    rw [readOpening?, namesLanguage?_cons]
    rfl
  · have hopening : readOpening tokens = ⟨[], fenceText [] (Token.concat tokens).trim⟩ :=
      readOpening.eq_2 tokens fun word more h => hnames ⟨word, more, h⟩
    have hnone : namesLanguage? tokens = some false := by
      rcases tokens with _ | ⟨first, _ | ⟨⟨kind, word⟩, _ | ⟨third, more⟩⟩⟩
      · rfl
      · rfl
      · rfl
      · rw [namesLanguage?_cons, Option.some.injEq, Bool.eq_false_iff]
        intro h
        simp only [Bool.and_eq_true, decide_eq_true_eq] at h
        obtain ⟨⟨rfl, rfl⟩, rfl⟩ := h
        exact hnames ⟨word, more, rfl⟩
    rw [readOpening?, hnone, hopening]
    rfl

end Numbered

/-! ## The whole comment -/

/-- **A comment cannot be read exactly if a part of it outside code misdirects.** The first part
that does makes the error, which tells what stands behind the bracket. No token is looked for that
is not there. -/
theorem elements_eq_error_iff (t : Text) :
    ((∃ e, elements t = .error e) ↔
      ∃ l ∈ proseParts false (sourceLines t), ∃ found, Misdirects l found) ∧
    (∀ e, elements t = .error e ↔ FailsAt (proseParts false (sourceLines t)) e) ∧
    (∀ line, Numbered.readLine? line = some (readLine line)) ∧
    ∀ tokens, Numbered.readOpening? tokens = some (readOpening tokens) := by
  have hfails : ∀ e, elements t = .error e ↔ FailsAt (proseParts false (sourceLines t)) e :=
    fun e => map_eq_error_iff.trans readLines_eq_error_iff
  refine ⟨?_, hfails, Numbered.readLine?_eq, Numbered.readOpening?_eq⟩
  rw [← exists_failsAt_iff]
  exact exists_congr hfails

/-- In a block of code, behind its tag and on an indented line, a qualifier may be anything. -/
example : elements ("@code @param[up]\n@param[up] a\n@endcode\n  @param[up] b\n" ++
    "@Param[down] c @code").toList = .error { found := "down]".toList } := rfl

end DoxygenMarkdown.Comment

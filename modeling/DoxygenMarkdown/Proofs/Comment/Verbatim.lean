import DoxygenMarkdown.Proofs.Comment.Settled
import DoxygenMarkdown.Proofs.Marker
import DoxygenMarkdown.Proofs.Text.Blank
import DoxygenMarkdown.Proofs.Token
import Mathlib.Data.List.TakeDrop

/-!
# Blocks of code are verbatim

A block of code at the margin is an element whose text is the block as it is written, whatever its
lines look like and whatever stands above and below it (`elements_codeBlock`).

* The line that opens the block is read off completely: it has a marker, the tag for code, and
  perhaps a language in braces (`openingLine`). It goes on with nothing above it.
* A line of the block (`IsCodeLine`) is added as it is. Whether it closes the block is asked of the
  line without its star, but what is added is the line with it.
* The line that closes the block settles the state, so what stands below is read by itself.
-/

namespace DoxygenMarkdown.Comment

/-- A language that braces after the tag for code may name, written there after a full stop. -/
def IsLanguage (l : Text) : Prop :=
  l ≠ [] ∧ l.head? ≠ some '.' ∧ ∀ c ∈ l, isBlank c = false ∧ c ∉ ['@', '\\', '{', '}', '[']

/-- A text that makes up one word with a full stop before it, between braces. -/
def IsBraced (l : Text) : Prop := ∀ c ∈ l, isBlank c = false ∧ c ∉ ['@', '\\', '{', '}']

/-- The language that is named in braces behind a full stop: more full stops do not count. -/
def languageName (l : Text) : Text := l.dropWhile (· == '.')

/-- The language in braces, if there is one. -/
def languageSuffix : Option Text → Text
  | none => []
  | some l => '{' :: '.' :: l ++ ['}']

/-- A line that opens a block of code. -/
def openingLine (m : Marker) (language : Option Text) : Text :=
  m.text ++ Tag.code ++ languageSuffix language

/-- A line that closes a block of code. -/
def closingLine (m : Marker) : Text := m.text ++ Tag.endCode

/-- A line that a block of code may hold: it does not close the block. -/
def IsCodeLine (l : Text) : Prop :=
  '\n' ∉ l ∧ l.getLast? ≠ some '\r' ∧ Marker.leads (dropStar l) Tag.endCode = false

instance (l : Text) : Decidable (IsLanguage l) :=
  inferInstanceAs (Decidable (l ≠ [] ∧ l.head? ≠ some '.' ∧
    ∀ c ∈ l, isBlank c = false ∧ c ∉ ['@', '\\', '{', '}', '[']))

instance (l : Text) : Decidable (IsBraced l) :=
  inferInstanceAs (Decidable (∀ c ∈ l, isBlank c = false ∧ c ∉ ['@', '\\', '{', '}']))

instance (l : Text) : Decidable (IsCodeLine l) :=
  inferInstanceAs (Decidable ('\n' ∉ l ∧ l.getLast? ≠ some '\r' ∧
    Marker.leads (dropStar l) Tag.endCode = false))

/-! ## The line that opens a block -/

theorem dropStar_cons {c : Char} (hb : isBlank c = false) (hc : c ≠ '*') (t : Text) :
    dropStar (c :: t) = c :: t := by
  unfold dropStar
  split
  · next h => exact absurd (List.cons.inj h).1 hc
  · rw [Text.trim_cons hb]
    exact if_neg fun h => hc (List.cons.inj h).1

/-- A word that opens code, alone on its line, has nothing before it. -/
theorem openCode?_of_opensCode {w : Text} (hne : w ≠ []) (hb : ∀ c ∈ w, isBlank c = false)
    (h : opensCode w = true) : openCode? w = some ([], w) := by
  rw [openCode?, Text.words_of_forall_not_blank hne hb, List.span_eq_takeWhile_dropWhile]
  simp [h, Text.unwords]

theorem IsLanguage.isBraced {l : Text} (h : IsLanguage l) : IsBraced l := by
  obtain ⟨-, -, hl⟩ := h
  exact fun c hc => ⟨(hl c hc).1, fun hsign => (hl c hc).2 (List.mem_append_left ['['] hsign)⟩

theorem IsLanguage.languageName_eq {l : Text} (h : IsLanguage l) : languageName l = l := by
  obtain ⟨-, hhead, -⟩ := h
  rcases l with _ | ⟨c, l⟩
  · rfl
  · have hc : (c == '.') = false := beq_eq_false_iff_ne.2 fun hc => hhead (congrArg some hc)
    exact List.dropWhile_cons_of_neg (Bool.eq_false_iff.1 hc)

theorem map_languageName {language : Option Text} (h : ∀ l ∈ language, IsLanguage l) :
    language.map languageName = language := by
  cases language with
  | none => rfl
  | some l => exact congrArg some (h l rfl).languageName_eq

theorem openingLine_ne_nil (m : Marker) (language : Option Text) : openingLine m language ≠ [] := by
  cases m <;> exact List.cons_ne_nil _ _

theorem openingLine_not_blank (m : Marker) {language : Option Text}
    (h : ∀ l ∈ language, IsBraced l) : ∀ c ∈ openingLine m language, isBlank c = false := by
  have hm : ∀ c ∈ m.text ++ Tag.code, isBlank c = false := by
    cases m <;> decide
  intro c hc
  rcases List.mem_append.1 hc with hc | hc
  · exact hm c hc
  cases language with
  | none => cases hc
  | some l =>
    simp only [languageSuffix, List.mem_cons, List.mem_append, List.cons_append,
      List.not_mem_nil, or_false] at hc
    rcases hc with rfl | rfl | hc | rfl
    · decide
    · decide
    · exact (h l rfl c hc).1
    · decide

theorem opensCode_openingLine (m : Marker) (language : Option Text) :
    opensCode (openingLine m language) = true := by
  have htag : IsTagText Tag.code := Tag.isTagText_of_isKnown (by decide)
  have hend : Marker.EndsStem (languageSuffix language) := by
    intro c hc
    cases language with
    | none => cases hc
    | some l => exact .inr (.inr (Option.some.inj hc).symm)
  rw [opensCode, openingLine, Marker.leading?_append htag hend]
  rfl

/-- The line that opens a block is one word, and nothing comes before it. -/
theorem openCode?_openingLine (m : Marker) {language : Option Text}
    (h : ∀ l ∈ language, IsBraced l) :
    openCode? (openingLine m language) = some ([], openingLine m language) :=
  openCode?_of_opensCode (openingLine_ne_nil m language) (openingLine_not_blank m h)
    (opensCode_openingLine m language)

theorem scan_languageSuffix {l : Text} (h : IsBraced l) :
    Token.scan (languageSuffix (some l)) =
      [⟨.brace, ['{']⟩, ⟨.word, '.' :: l⟩, ⟨.brace, ['}']⟩] := by
  have hword : ∀ c ∈ '.' :: l, Token.kindOf c = .word := by
    intro c hc
    rcases List.mem_cons.1 hc with rfl | hc
    · decide
    · exact Token.kindOf_eq_word (h c hc).1 (h c hc).2
  have hend : Token.BeginsNoWord (Token.scan ['}']) := by decide
  have hscan := Token.scan_append_of_word (List.cons_ne_nil '.' l) hword hend
  have hbrace : Token.scan ('{' :: ('.' :: l ++ ['}'])) =
      ⟨.brace, ['{']⟩ :: Token.scan ('.' :: l ++ ['}']) := rfl
  rw [languageSuffix, List.cons_append, hbrace, hscan]
  rfl

/-- What is read off the line that opens a block: its language, and the fence. -/
theorem readOpening_openingLine (m : Marker) {language : Option Text}
    (h : ∀ l ∈ language, IsBraced l) :
    readOpening ((Token.scan (openingLine m language)).drop 2) =
      ⟨(language.map languageName).toList,
        "```".toList ++ (language.map languageName).getD []⟩ := by
  have hm : Token.scan (openingLine m language) =
      ⟨.marker, m.text⟩ :: Token.scan (Tag.code ++ languageSuffix language) := by
    rw [openingLine, List.append_assoc]
    exact Token.scan_marker_append m fun hc => absurd (Option.some.inj hc) (by decide)
  have hcode : Token.BeginsNoWord (Token.scan (languageSuffix language)) →
      Token.scan (Tag.code ++ languageSuffix language) =
        ⟨.word, Tag.code⟩ :: Token.scan (languageSuffix language) :=
    Token.scan_append_of_word (by decide) (by decide)
  rw [hm]
  cases language with
  | none =>
    rw [hcode (by decide)]
    rfl
  | some l =>
    have hs := scan_languageSuffix (h l rfl)
    have hdot : ('.' :: l).dropWhile (· == '.') = languageName l :=
      List.dropWhile_cons_of_pos rfl
    rw [hcode (by rw [hs]; intro t ht; cases ht; decide), hs]
    simp only [List.drop_succ_cons, List.drop_zero, readOpening, hdot]
    simp [fenceText, Token.concat, Text.trim, Text.trimStart, Text.trimEnd, Text.dropEndWhile]

namespace State

/-! ## The lines of a block -/

/-- The state inside a block of code at the margin. -/
def inCode (es : List Element) (languages : List Text) (top : Text) : State :=
  ⟨.tagged Tag.code languages (.leaf top) :: es, {}, some ⟨0, 0, true⟩⟩

/-- The state after a block of code at the margin. -/
def afterCode (es : List Element) (languages : List Text) (top : Text) : State :=
  ⟨.tagged Tag.endCode [] (.leaf []) :: .tagged Tag.code languages (.leaf top) :: es, {}, none⟩

theorem settled_afterCode (es : List Element) (languages : List Text) (top : Text) :
    (afterCode es languages top).Settled := ⟨rfl, rfl, rfl⟩

/-- Outside code, the line that opens a block goes on with nothing that was read before. -/
theorem step_openingLine {s : State} (hs : s.code = none) (m : Marker) {language : Option Text}
    (h : ∀ l ∈ language, IsLanguage l) :
    s.step (openingLine m language) =
      .ok (inCode s.elements language.toList ("```".toList ++ language.getD [])) := by
  have hstar : dropStar (openingLine m language) = openingLine m language := by
    cases m <;> exact dropStar_cons (by decide) (by decide) _
  have hindent : Text.indentation (openingLine m language) = 0 := by
    cases m <;> exact Text.indentation_cons (by decide) _
  have hbraced : ∀ l ∈ language, IsBraced l := fun l hl => (h l hl).isBraced
  have hopens : openCode? (dropStar (openingLine m language)) =
      some ([], openingLine m language) := by
    rw [hstar, openCode?_openingLine m hbraced]
  rw [step_of_opens hs hopens, hstar, beginCode_of_element fun hi => hi.1 hindent,
    readOpening_openingLine m hbraced, map_languageName h, hindent]
  rfl

/-- A line of code is added as it is written. -/
theorem step_inCode {l : Text} (h : IsCodeLine l) (es : List Element) (languages : List Text)
    (top : Text) :
    (inCode es languages top).step l = .ok (inCode es languages (top ++ '\n' :: l)) := by
  obtain ⟨-, -, hend⟩ := h
  rw [step_of_code rfl, hend]
  rfl

/-- All lines of a block are added as they are written. -/
theorem readLines_inCode {body : List Text} (h : ∀ l ∈ body, IsCodeLine l) (es : List Element)
    (languages : List Text) (top : Text) :
    readLines (inCode es languages top) body =
      .ok (inCode es languages (top ++ body.flatMap ('\n' :: ·))) := by
  induction body generalizing top with
  | nil =>
    rw [List.flatMap_nil, List.append_nil]
    rfl
  | cons l body ih =>
    rw [readLines_cons, step_inCode (h l List.mem_cons_self), List.flatMap_cons,
      ← List.append_assoc]
    exact ih (fun k hk => h k (List.mem_cons_of_mem _ hk)) _

theorem step_closingLine (m : Marker) (es : List Element) (languages : List Text) (top : Text) :
    (inCode es languages top).step (closingLine m) =
      .ok (afterCode es languages (top ++ "\n```".toList)) := by
  have hend : Marker.leads (dropStar (closingLine m)) Tag.endCode = true := by
    cases m <;> rfl
  rw [step_of_code rfl, hend]
  rfl

end State

/-! ## The whole comment -/

/-- The lines of a comment that has a block of code in its middle. -/
theorem sourceLines_codeBlock {a : Text} (hr : a.getLast? ≠ some '\r') (m m' : Marker)
    {language : Option Text} (hlang : ∀ l ∈ language, IsLanguage l) {body : List Text}
    (hbody : ∀ l ∈ body, IsCodeLine l) (b : Text) :
    sourceLines (Text.unlines ([a, openingLine m language] ++ body ++ [closingLine m', b])) =
      (sourceLines a ++ openingLine m language :: (body ++ [closingLine m'])) ++
        sourceLines b := by
  have hchars := openingLine_not_blank m fun l hl => (hlang l hl).isBraced
  have hopen : '\n' ∉ openingLine m language := fun hc => absurd (hchars _ hc) (by decide)
  have hopenEnd : (openingLine m language).getLast? ≠ some '\r' := fun hc =>
    absurd (hchars _ (List.mem_of_getLast? hc)) (by decide)
  have hclose : '\n' ∉ closingLine m' := by
    cases m' <;> decide
  have hcloseEnd : (closingLine m').getLast? ≠ some '\r' := by
    cases m' <;> decide
  have hbodyLines : body.flatMap sourceLines = body :=
    flatMap_sourceLines fun l hl => (hbody l hl).1
  have hsplit : [a, openingLine m language] ++ body ++ [closingLine m', b] =
      ([a, openingLine m language] ++ body ++ [closingLine m']) ++ [b] := by simp
  rw [hsplit, sourceLines_unlines_concat]
  · simp [List.flatMap_append, hbodyLines, sourceLines_of_notMem hopen,
      sourceLines_of_notMem hclose]
  · intro t ht
    simp only [List.mem_append, List.mem_cons, List.not_mem_nil, or_false] at ht
    rcases ht with ((rfl | rfl) | ht) | rfl
    · exact hr
    · exact hopenEnd
    · exact (hbody t ht).2.1
    · exact hcloseEnd

/-- **Blocks of code are verbatim.** A block of code at the margin, below a comment that closes its
own code and above any other, is an element of its own that holds its lines as they are written,
followed by the element that says that it is closed. The comments above and below say what they say
by themselves, and are the only ones that can fail to be read. -/
theorem elements_codeBlock {a : Text} (hr : a.getLast? ≠ some '\r') (hc : ClosesCode a)
    (m m' : Marker) {language : Option Text} (hlang : ∀ l ∈ language, IsLanguage l)
    {body : List Text} (hne : body ≠ []) (hbody : ∀ l ∈ body, IsCodeLine l) (b : Text) :
    elements (Text.unlines ([a, openingLine m language] ++ body ++ [closingLine m', b])) = do
      let es ← elements a
      let fs ← elements b
      let text := "```".toList ++ language.getD [] ++ '\n' :: Text.unlines body ++ "\n```".toList
      return es.dropLast ++ .tagged Tag.code language.toList (.leaf text) ::
        .tagged Tag.endCode [] (.leaf []) :: fs := by
  have hlines := sourceLines_codeBlock hr m m' hlang hbody b
  rcases hs : stateAfter a with e | s
  · -- what cannot be read above the block is an error before the block begins
    rw [elements_of_prefix_error (hlines.trans (List.append_assoc _ _ _)) hs, elements_of_error hs]
    rfl
  · have hcode : s.code = none := hc s hs
    have hread :
        readLines {} (sourceLines a ++ openingLine m language :: (body ++ [closingLine m'])) =
        .ok (State.afterCode s.elements language.toList ("```".toList ++ language.getD [] ++
          '\n' :: Text.unlines body ++ "\n```".toList)) := by
      rw [readLines_append_of_ok hs, readLines_cons_of_ok (State.step_openingLine hcode m hlang),
        readLines_append_of_ok (State.readLines_inCode hbody _ _ _),
        readLines_cons_of_ok (State.step_closingLine m' _ _ _), Text.cons_unlines hne]
      rfl
    have ha : elements a = .ok (s.elements.reverse ++ [.separator]) := by
      rw [elements_of_ok hs, State.finish_of_code_eq_none hcode]
    rw [elements_of_settled hlines hread (State.settled_afterCode _ _ _), ha]
    rcases elements b with e | fs
    · rfl
    · -- the separator at the end of the first comment is the one that is not there
      refine congrArg Except.ok ?_
      simp [State.afterCode]

/-- Stars, tags, and what would be an error elsewhere are kept as they are in code, and the line
below the block does not join the list above it. -/
theorem elements_codeBlock_tags :
    elements (Text.unlines (["List:\n  - one".toList,
        openingLine .backslash (some "rs".toList)] ++
        ["* @param[up] x".toList, [], "  - @code https://x.org".toList] ++
        [closingLine .atSign, "  - two".toList])) =
      .ok [.plain ⟨"List:".toList, [.leaf "one".toList]⟩,
        .tagged Tag.code ["rs".toList]
          (.leaf "```rs\n* @param[up] x\n\n  - @code https://x.org\n```".toList),
        .tagged Tag.endCode [] (.leaf []), .plain (.leaf "- two".toList), .separator] :=
  (elements_codeBlock (by decide) (by decide) .backslash .atSign (by decide) (by decide)
    (by decide) "  - two".toList).trans rfl

end DoxygenMarkdown.Comment

import DoxygenMarkdown.Proofs.Comment.LeadingTag
import DoxygenMarkdown.Proofs.Comment.Settled
import DoxygenMarkdown.Proofs.Fences.Reading

/-!
# What every comment is read as

Whatever lines a comment has, if it can be read, it ends with a separator, its tags are known and
have only the qualifiers that fit them (`QualifiersFit`), and its blocks of code are closed. A block
is a fence around its lines (`fencedText`) without items, and right behind it stands the element
that says that it ended, or the end of the comment (`elements_wellFormed`).

A block of code is an element from its first line on and grows with every line that is read, while
other lines may change the last element as well. So this is an invariant of all steps:

* Outside code, every block is closed (`IsSealed`). The element behind a block takes no lines, so an
  element that a line can change is no part of a block (`State.isTopped_of_takesLines`), and lines
  leave the blocks as they are (`State.isTopped_takeLine`).
* Inside code, the last element holds the block that is open, and only the lines of that block reach
  it (`State.IsWellFormed`).
-/

namespace DoxygenMarkdown

/-! ## Tags and their qualifiers -/

/-- The directions that a parameter may have. -/
def parameterDirections : List (List Text) :=
  [[], ["in".toList], ["out".toList], ["in".toList, "out".toList]]

/-- What may qualify a tag: directions a parameter, a language a block of code, and nothing any
other. -/
structure QualifiersFit (tag : Text) (qualifiers : List Text) : Prop where
  parameter : tag = "param".toList → qualifiers ∈ parameterDirections
  code : tag = Tag.code → qualifiers.length ≤ 1
  other : tag ≠ "param".toList → tag ≠ Tag.code → qualifiers = []

theorem qualifiersFit_code {languages : List Text} (h : languages.length ≤ 1) :
    QualifiersFit Tag.code languages where
  parameter htag := absurd htag (by decide)
  code _ := h
  other _ htag := absurd rfl htag

theorem qualifiersFit_endCode : QualifiersFit Tag.endCode [] where
  parameter htag := absurd htag (by decide)
  code htag := absurd htag (by decide)
  other _ _ := rfl

namespace Element

/-- A tagged element has a known tag and qualifiers that fit. -/
def TagFits : Element → Prop
  | tagged tag qualifiers _ => Tag.isKnown tag = true ∧ QualifiersFit tag qualifiers
  | _ => True

/-- An element that is no block of code. -/
def IsProse : Element → Prop
  | tagged tag _ _ => tag ≠ Tag.code
  | _ => True

theorem tagFits_mapContent {e : Element} (h : e.TagFits) (f : Outline → Outline) :
    (e.mapContent f).TagFits := by
  cases e <;> exact h

theorem isProse_mapContent {e : Element} (h : e.IsProse) (f : Outline → Outline) :
    (e.mapContent f).IsProse := by
  cases e <;> exact h

end Element

namespace Comment

theorem mem_parameterDirections_of_readDirection {qualifier : Text} {names : List Text}
    (h : readDirection qualifier = .ok names) : names ∈ parameterDirections := by
  have hall : ∀ entry ∈ directions, entry.2 ∈ parameterDirections := by decide
  rw [readDirection] at h
  split at h
  · next entry hfind =>
    cases h
    exact hall entry (List.mem_of_find?_eq_some hfind)
  · cases h

/-- What a line at the margin says is prose, and its tag fits. -/
theorem fits_of_readTagged {line word : Text} {e : Element} (h : readTagged line word = .ok e) :
    e.TagFits ∧ e.IsProse := by
  by_cases hknown : Tag.isKnown (Text.lower (word.takeWhile (· ≠ '['))) = true ∧
      Text.lower (word.takeWhile (· ≠ '[')) ≠ Tag.code
  · obtain ⟨hknown, hcode⟩ := hknown
    rw [readTagged_of_known rfl hknown hcode] at h
    obtain ⟨qualifiers, hq, rfl⟩ := exists_of_map_eq_ok h
    refine ⟨⟨hknown, ?_, fun htag => absurd htag hcode, fun hparam _ => ?_⟩, hcode⟩
    · intro hparam
      rw [if_pos hparam] at hq
      exact mem_parameterDirections_of_readDirection hq
    · rw [if_neg hparam] at hq
      exact (Except.ok.inj hq).symm
  · rw [readTagged_of_unknown rfl hknown] at h
    cases h
    exact ⟨trivial, trivial⟩

theorem fits_of_readLine {line : Text} {e : Element} (h : readLine line = .ok (.element e)) :
    e.TagFits ∧ e.IsProse := by
  rcases cases_of_readLine h with hnone | rfl | ⟨word, hword⟩
  · cases e with
    | tagged => cases hnone
    | _ => exact ⟨trivial, trivial⟩
  · exact ⟨trivial, trivial⟩
  · exact fits_of_readTagged hword

/-! ## The text of a block -/

/-- A fence, with a language if there is one, and lines below it. -/
def fencedText (languages body : List Text) : Text :=
  Text.unlines (("```".toList ++ languages.headD []) :: body)

theorem fencedText_concat (languages body : List Text) (l : Text) :
    fencedText languages body ++ '\n' :: l = fencedText languages (body ++ [l]) := by
  have happend := Text.unlines_append (List.cons_ne_nil ("```".toList ++ languages.headD []) body)
    (List.cons_ne_nil l [])
  rw [Text.unlines_singleton] at happend
  exact happend.symm

theorem fenceText_eq (languages : List Text) (rest : Text) :
    fenceText (languages.headD []) rest =
      fencedText languages (if rest.isEmpty then [] else [rest]) := by
  rw [fenceText]
  split
  · rw [List.append_nil, fencedText, Text.unlines_singleton]
  · rw [fencedText, Text.unlines_cons_cons, Text.unlines_singleton]

/-- What may stand in a block of code, if these are the lines of the comment: what else there is on
the line of its tag, and then ends of lines. -/
def IsBody (ls body : List Text) : Prop :=
  ∃ opening code, body = opening ++ code ∧ opening.length ≤ 1 ∧ ∀ l ∈ code, ∃ raw ∈ ls, l <:+ raw

theorem isBody_opening (ls : List Text) (rest : Text) :
    IsBody ls (if rest.isEmpty then [] else [rest]) := by
  refine ⟨_, [], (List.append_nil _).symm, ?_, fun l hl => absurd hl List.not_mem_nil⟩
  split
  · exact Nat.zero_le 1
  · exact Nat.le_refl 1

theorem IsBody.concat {ls body : List Text} (h : IsBody ls body) {l raw : Text} (hraw : raw ∈ ls)
    (hl : l <:+ raw) : IsBody ls (body ++ [l]) := by
  obtain ⟨opening, code, rfl, hopening, hcode⟩ := h
  refine ⟨opening, code ++ [l], List.append_assoc _ _ _, hopening, ?_⟩
  exact List.forall_mem_append.2 ⟨hcode, List.forall_mem_singleton.2 ⟨raw, hraw, hl⟩⟩

/-- Code is what is left of a line without its indentation. -/
theorem content_suffix (block : CodeBlock) (raw : Text) : block.content raw <:+ raw := by
  rw [CodeBlock.content]
  split
  · exact List.drop_suffix _ raw
  · exact List.dropWhile_suffix _

/-- The line that opens a block begins its fence. -/
theorem exists_readOpening_eq (ls : List Text) (tokens : List Token) :
    ∃ languages body, languages.length ≤ 1 ∧ IsBody ls body ∧
      readOpening tokens = ⟨languages, fencedText languages body⟩ := by
  unfold readOpening
  split
  · exact ⟨[_], _, Nat.le_refl 1, isBody_opening ls _, congrArg _ (fenceText_eq [_] _)⟩
  · exact ⟨[], _, Nat.zero_le 1, isBody_opening ls _, congrArg _ (fenceText_eq [] _)⟩

/-! ## Closed blocks -/

/-- A block of code, as an element. -/
def blockElement (languages body : List Text) : Element :=
  .tagged Tag.code languages (.leaf (fencedText languages body))

/-- The element behind a block that says that the block is closed. -/
def blockEnd : Element := .tagged Tag.endCode [] (.leaf [])

variable {ls : List Text}

/-- Elements, the last one first, in which every block of code is closed. -/
inductive IsSealed (ls : List Text) : List Element → Prop where
  | nil : IsSealed ls []
  | cons {e : Element} {es : List Element} (hfits : e.TagFits) (hprose : e.IsProse)
    (hes : IsSealed ls es) : IsSealed ls (e :: es)
  | block {languages body : List Text} {es : List Element} (hlanguages : languages.length ≤ 1)
    (hbody : IsBody ls body) (hes : IsSealed ls es) :
    IsSealed ls (blockEnd :: blockElement languages (body ++ ["```".toList]) :: es)

/-- Elements in which every block of code is closed, and the last element is no part of one. -/
def IsTopped (ls : List Text) : List Element → Prop
  | [] => False
  | e :: es => e.TagFits ∧ e.IsProse ∧ IsSealed ls es

theorem IsTopped.isSealed {es : List Element} (h : IsTopped ls es) : IsSealed ls es := by
  rcases es with _ | ⟨e, es⟩
  · exact absurd h id
  · exact .cons h.1 h.2.1 h.2.2

theorem IsTopped.mapContent {e : Element} {es : List Element} (h : IsTopped ls (e :: es))
    (f : Outline → Outline) : IsTopped ls (e.mapContent f :: es) :=
  ⟨e.tagFits_mapContent h.1 f, e.isProse_mapContent h.2.1 f, h.2.2⟩

theorem tagFits_blockElement {languages : List Text} (h : languages.length ≤ 1)
    (body : List Text) : (blockElement languages body).TagFits :=
  ⟨by decide, qualifiersFit_code h⟩

theorem tagFits_blockEnd : blockEnd.TagFits := ⟨by decide, qualifiersFit_endCode⟩

/-- All tags have the qualifiers that fit them. -/
theorem IsSealed.tagFits {es : List Element} (h : IsSealed ls es) : ∀ e ∈ es, e.TagFits := by
  induction h with
  | nil => exact fun e he => absurd he List.not_mem_nil
  | cons hfits _ _ ih => exact List.forall_mem_cons.2 ⟨hfits, ih⟩
  | block hlanguages body _ ih =>
    exact List.forall_mem_cons.2 ⟨tagFits_blockEnd,
      List.forall_mem_cons.2 ⟨tagFits_blockElement hlanguages _, ih⟩⟩

/-- Each block of code is a closed fence, and the element that was read after it says so. Only the
last of the elements may be a block without such an element, and only if `isOpen`. -/
def BlocksEnd (ls : List Text) (isOpen : Prop) (es : List Element) : Prop :=
  ∀ later languages o earlier, es = later ++ .tagged Tag.code languages o :: earlier →
    (∃ body, IsBody ls body ∧ o = .leaf (fencedText languages (body ++ ["```".toList]))) ∧
      (later.getLast? = some blockEnd ∨ later = [] ∧ isOpen)

theorem BlocksEnd.cons {isOpen : Prop} {es : List Element} (h : BlocksEnd ls False es) (e : Element)
    (he : ∀ languages o, e = .tagged Tag.code languages o →
      (∃ body, IsBody ls body ∧ o = .leaf (fencedText languages (body ++ ["```".toList]))) ∧
        isOpen) :
    BlocksEnd ls isOpen (e :: es) := by
  intro later languages o earlier hes
  rcases later with _ | ⟨e', later⟩
  · obtain ⟨hbody, hopen⟩ := he languages o (List.cons.inj hes).1
    exact ⟨hbody, .inr ⟨rfl, hopen⟩⟩
  · obtain ⟨hbody, hlast | ⟨-, hopen⟩⟩ := h later languages o earlier (List.cons.inj hes).2
    · refine ⟨hbody, .inl ?_⟩
      rw [List.getLast?_cons, hlast, Option.getD_some]
    · exact absurd hopen id

theorem BlocksEnd.of_false {isOpen : Prop} {es : List Element} (h : BlocksEnd ls False es) :
    BlocksEnd ls isOpen es := by
  intro later languages o earlier hes
  obtain ⟨hbody, hlast⟩ := h later languages o earlier hes
  exact ⟨hbody, hlast.imp_right fun hopen => absurd hopen.2 id⟩

theorem IsSealed.blocksEnd {es : List Element} (h : IsSealed ls es) : BlocksEnd ls False es := by
  induction h with
  | nil =>
    intro later languages o earlier hes
    cases later <;> cases hes
  | @cons e es _ hprose _ ih => exact ih.cons e fun languages o he => absurd rfl (he ▸ hprose)
  | @block languages body es _ hbody _ ih =>
    have hblock : BlocksEnd ls True (blockElement languages (body ++ ["```".toList]) :: es) :=
      ih.cons _ fun languages o he => by
        cases he
        exact ⟨⟨body, hbody, rfl⟩, trivial⟩
    intro later languages o earlier hes
    rcases later with _ | ⟨e, later⟩
    · cases hes
    · obtain ⟨rfl, htail⟩ := List.cons.inj hes
      obtain ⟨hbody, hlast⟩ := hblock later _ o earlier htail
      refine ⟨hbody, .inl ?_⟩
      rcases hlast with hlast | ⟨rfl, -⟩
      · rw [List.getLast?_cons, hlast, Option.getD_some]
      · rfl

/-- In the order of the comment, the end of a block is the element behind it. -/
theorem BlocksEnd.reverse {isOpen : Prop} {es : List Element} (h : BlocksEnd ls isOpen es)
    {before after : List Element} {languages : List Text} {o : Outline}
    (hes : es.reverse ++ [.separator] = before ++ .tagged Tag.code languages o :: after) :
    (∃ body, IsBody ls body ∧ o = .leaf (fencedText languages (body ++ ["```".toList]))) ∧
      ((∃ rest, after = blockEnd :: rest) ∨ after = [.separator] ∧ isOpen) := by
  rcases after.eq_nil_or_concat with rfl | ⟨after, e, rfl⟩
  · exact absurd (List.append_inj_right' hes rfl) (by simp)
  · rw [List.concat_eq_append, ← List.cons_append, ← List.append_assoc] at hes
    obtain ⟨hsplit, he⟩ := List.append_inj' hes rfl
    obtain rfl : .separator = e := List.singleton_inj.1 he
    have hes : es = after.reverse ++ .tagged Tag.code languages o :: before.reverse := by
      rw [← es.reverse_reverse, hsplit]
      simp
    obtain ⟨hbody, hlast⟩ := h _ _ _ _ hes
    refine ⟨hbody, hlast.imp (fun hlast => ?_) fun ⟨hnil, hopen⟩ => ⟨?_, hopen⟩⟩
    · rw [List.getLast?_reverse] at hlast
      obtain ⟨rest, rfl⟩ := List.head?_eq_some_iff.1 hlast
      exact ⟨_, rfl⟩
    · rw [List.reverse_eq_nil_iff.1 hnil]
      rfl

/-! ## Lines outside code -/

namespace State

variable {s s' : State}

/-- An element that takes lines is no part of a block. -/
theorem isTopped_of_takesLines (h : IsSealed ls s.elements) (htakes : s.takesLines = true) :
    IsTopped ls s.elements := by
  rw [takesLines] at htakes
  cases hes : s.elements with
  | nil =>
    rw [hes] at htakes
    cases htakes
  | cons e es =>
    rw [hes] at h htakes
    cases h with
    | cons hfits hprose hes => exact ⟨hfits, hprose, hes⟩
    | block => cases htakes

theorem isTopped_push (h : IsSealed ls s.elements) {e : Element} (he : e.TagFits ∧ e.IsProse) :
    IsTopped ls (s.push e).elements := ⟨he.1, he.2, h⟩

theorem isTopped_modifyLast (h : IsTopped ls s.elements) (depth : Nat) (f : Outline → Outline) :
    IsTopped ls (s.modifyLast depth f).elements := by
  obtain ⟨_ | ⟨e, es⟩, n, code⟩ := s
  · exact h
  · exact IsTopped.mapContent h _

/-- **A line outside code leaves all blocks closed.** The last element is no part of one then, since
the line is that element, or belongs to it. -/
theorem isTopped_takeLine (h : IsSealed ls s.elements) {line : Text} {depth : Option Nat}
    (hs : s.takeLine line = .ok (s', depth)) : IsTopped ls s'.elements := by
  obtain ⟨e, hline, rfl, -⟩ | ⟨t, rfl, -⟩ | ⟨htakes, t, f, -, rfl⟩ := takeLine_cases hs
  · exact isTopped_push h (fits_of_readLine hline)
  · exact isTopped_push h ⟨trivial, trivial⟩
  · have htop : IsTopped ls (s.enter line.indentation).elements := isTopped_of_takesLines h htakes
    exact isTopped_modifyLast htop _ f

/-! ## All lines -/

/-- Every block of code is closed but the one that is open, if one is. The last element holds that
one: it is the block, or something else with the block inside. -/
inductive IsWellFormed (ls : List Text) : State → Prop where
  | outside {es : List Element} (n : Nesting) (hes : IsSealed ls es) : IsWellFormed ls ⟨es, n, none⟩
  | inside {es : List Element} (n : Nesting) (depth indent : Nat) (hes : IsTopped ls es) :
    IsWellFormed ls ⟨es, n, some ⟨depth, indent, false⟩⟩
  | block {languages body : List Text} {es : List Element} (n : Nesting) (indent : Nat)
    (hlanguages : languages.length ≤ 1) (hbody : IsBody ls body) (hes : IsSealed ls es) :
    IsWellFormed ls ⟨blockElement languages body :: es, n, some ⟨0, indent, true⟩⟩

/-- A block that begins by itself is an element. -/
theorem isWellFormed_beginCodeAt_none (h : IsSealed ls s.elements) (tokens : List Token)
    (indent : Nat) : IsWellFormed ls (s.beginCodeAt (readOpening tokens) indent none) := by
  obtain ⟨languages, body, hlanguages, hbody, hopening⟩ := exists_readOpening_eq ls tokens
  rw [hopening]
  exact .block {} indent hlanguages hbody h

/-- A block that begins in an element that is no block is held by it. -/
theorem isWellFormed_beginCodeAt (h : IsTopped ls s.elements) (tokens : List Token) (indent : Nat)
    (depth : Option Nat) : IsWellFormed ls (s.beginCodeAt (readOpening tokens) indent depth) := by
  cases depth with
  | some depth => exact .inside _ depth indent (isTopped_modifyLast h depth _)
  | none => exact isWellFormed_beginCodeAt_none h.isSealed tokens indent

theorem isWellFormed_beginCode (h : IsSealed ls s.elements) {line before opener : Text}
    (hs : s.beginCode line before opener = .ok s') : IsWellFormed ls s' := by
  obtain ⟨s₁, depth, rfl, ⟨-, rfl, rfl⟩ | ⟨-, htakes, rfl⟩ | ⟨-, hl⟩⟩ := beginCode_cases hs
  · exact isWellFormed_beginCodeAt_none h _ _
  · have htop : IsTopped ls (s.enter line.indentation).elements := isTopped_of_takesLines h htakes
    exact isWellFormed_beginCodeAt htop _ _ _
  · exact isWellFormed_beginCodeAt (isTopped_takeLine h hl) _ _ _

theorem modifyLast_blockElement (es : List Element) (n : Nesting) (code : Option CodeBlock)
    (languages body : List Text) (l : Text) :
    (State.mk (blockElement languages body :: es) n code).modifyLast 0 (Outline.addLine l) =
      ⟨blockElement languages (body ++ [l]) :: es, n, code⟩ := by
  rw [blockElement, blockElement, ← fencedText_concat]
  rfl

/-- **A step leaves every block closed but the one that is open.** -/
theorem IsWellFormed.step (h : IsWellFormed ls s) {raw : Text} (hraw : raw ∈ ls)
    (hs : s.step raw = .ok s') : IsWellFormed ls s' := by
  cases h with
  | @outside es n hes =>
    rcases ho : openCode? (dropStar raw) with _ | ⟨before, opener⟩
    · rw [step_of_plain rfl ho] at hs
      obtain ⟨⟨s₁, depth⟩, hl, rfl⟩ := exists_of_map_eq_ok hs
      have hc : s₁.code = none := takeLine_code hl
      have hsealed : IsSealed ls s₁.elements := (isTopped_takeLine hes hl).isSealed
      obtain ⟨fs, n', code⟩ := s₁
      obtain rfl : code = none := hc
      exact .outside n' hsealed
    · rw [step_of_opens rfl ho] at hs
      exact isWellFormed_beginCode hes hs
  | @inside es n depth indent hes =>
    rw [step_of_code rfl] at hs
    cases hs
    rcases es with _ | ⟨e, es⟩
    · exact absurd hes id
    split
    · exact .outside n (IsTopped.mapContent hes _).isSealed
    · exact .inside n depth indent (IsTopped.mapContent hes _)
  | @block languages body es n indent hlanguages hbody hes =>
    rw [step_of_code rfl] at hs
    cases hs
    split
    · -- the end of the block and the element that says so come at once
      rw [endCode, closeCode, modifyLast_blockElement]
      exact .outside n (.block hlanguages hbody hes)
    · rw [addCode, modifyLast_blockElement]
      exact .block n indent hlanguages (hbody.concat hraw (content_suffix _ raw)) hes

/-- Every block of code is closed but the one that is open, after any lines. -/
theorem isWellFormed_readLines {ms : List Text} (hms : ms ⊆ ls) (h : IsWellFormed ls s)
    (hread : readLines s ms = .ok s') : IsWellFormed ls s' := by
  induction ms generalizing s with
  | nil =>
    cases hread
    exact h
  | cons l ms ih =>
    obtain ⟨hl, hms⟩ := List.cons_subset.1 hms
    obtain ⟨s₁, hstep, hread⟩ := exists_of_readLines_cons hread
    exact ih hms (h.step hl hstep) hread

/-- At the end of a comment, the block that is open is closed. -/
theorem IsWellFormed.closed (h : IsWellFormed ls s) :
    (∀ e ∈ s.closed.elements, e.TagFits) ∧ BlocksEnd ls (s.code ≠ none) s.closed.elements := by
  cases h with
  | outside n hes => exact ⟨hes.tagFits, hes.blocksEnd.of_false⟩
  | @inside es n depth indent hes =>
    rcases es with _ | ⟨e, es⟩
    · exact absurd hes id
    · have hsealed := (IsTopped.mapContent hes
        (Outline.modifyEdge (Outline.addLine "```".toList) depth)).isSealed
      exact ⟨hsealed.tagFits, hsealed.blocksEnd.of_false⟩
  | @block languages body es n indent hlanguages hbody hes =>
    rw [closed_of_code rfl, closeCode, modifyLast_blockElement]
    refine ⟨List.forall_mem_cons.2 ⟨tagFits_blockElement hlanguages _, hes.tagFits⟩, ?_⟩
    -- the fence is closed, but no element says so
    refine hes.blocksEnd.cons _ fun languages o he => ?_
    cases he
    exact ⟨⟨body, hbody, rfl⟩, Option.some_ne_none _⟩

end State

/-- **Whatever a comment says, it is read as this.** A comment that can be read ends with a
separator. Its tags are known, and have only the qualifiers that fit them. A block of code has no
items. Its text is a fence, with the language of the block if it has one, and a fence again, and
between them stands nothing but what the comment says there; right behind it stands an element that
says that it ended and no more, or the end of a comment that does not close the block. -/
theorem elements_wellFormed {t : Text} {es : List Element} (h : elements t = .ok es) :
    es.getLast? = some .separator ∧
    (∀ tag qualifiers o, .tagged tag qualifiers o ∈ es →
      Tag.isKnown tag = true ∧ QualifiersFit tag qualifiers) ∧
    ∀ before languages o after, es = before ++ .tagged Tag.code languages o :: after →
      (∃ body, IsBody (sourceLines t) body ∧
        o = .leaf (fencedText languages (body ++ ["```".toList]))) ∧
        ((∃ rest, after = blockEnd :: rest) ∨ after = [.separator] ∧ ¬ ClosesCode t) := by
  obtain ⟨s, hs, rfl⟩ := exists_of_map_eq_ok ((elements_eq t).symm.trans h)
  have hinit : State.IsWellFormed (sourceLines t) {} := .outside {} .nil
  obtain ⟨hfits, hblocks⟩ := (State.isWellFormed_readLines (List.Subset.refl _) hinit hs).closed
  rw [State.finish_eq]
  refine ⟨List.getLast?_concat, ?_, ?_⟩
  · intro tag qualifiers o he
    rcases List.mem_append.1 he with he | he
    · exact hfits _ (List.mem_reverse.1 he)
    · cases List.mem_singleton.1 he
  · intro before languages o after hes
    obtain ⟨hbody, hend⟩ := hblocks.reverse hes
    exact ⟨hbody, hend.imp_right (And.imp_right fun hopen hcloses => hopen (hcloses s hs))⟩

/-- A block that is closed, and one that is not and is therefore the last element. -/
theorem elements_wellFormed_two_blocks :
    elements "@param[out,in] x\n@code{.c}\n@return\n@endcode\n@code\ny".toList =
        .ok [.tagged "param".toList ["in".toList, "out".toList] (.leaf "x".toList),
          .tagged Tag.code ["c".toList] (.leaf "```c\n@return\n```".toList),
          .tagged Tag.endCode [] (.leaf []),
          .tagged Tag.code [] (.leaf "```\ny\n```".toList), .separator] ∧
      QualifiersFit "param".toList ["in".toList, "out".toList] ∧
      (∃ body, IsBody ["@param[out,in] x".toList, "@code{.c}".toList, "@return".toList,
        "@endcode".toList, "@code".toList, "y".toList] body ∧
        Outline.leaf "```c\n@return\n```".toList =
          .leaf (fencedText ["c".toList] (body ++ ["```".toList]))) ∧
      ¬ ClosesCode "@param[out,in] x\n@code{.c}\n@return\n@endcode\n@code\ny".toList := by
  have hread : elements "@param[out,in] x\n@code{.c}\n@return\n@endcode\n@code\ny".toList =
      .ok ([.tagged "param".toList ["in".toList, "out".toList] (.leaf "x".toList)] ++
        .tagged Tag.code ["c".toList] (.leaf "```c\n@return\n```".toList) ::
          .tagged Tag.endCode [] (.leaf []) ::
            .tagged Tag.code [] (.leaf "```\ny\n```".toList) :: [.separator]) := rfl
  obtain ⟨-, hfits, hblocks⟩ := elements_wellFormed hread
  refine ⟨hread, (hfits _ _ _ List.mem_cons_self).2, (hblocks _ _ _ _ rfl).1, ?_⟩
  obtain ⟨-, ⟨rest, hrest⟩ | ⟨-, hopen⟩⟩ := hblocks
    [.tagged "param".toList ["in".toList, "out".toList] (.leaf "x".toList),
      .tagged Tag.code ["c".toList] (.leaf "```c\n@return\n```".toList),
      .tagged Tag.endCode [] (.leaf [])] _ _ _ rfl
  · cases hrest
  · exact hopen

end Comment

end DoxygenMarkdown

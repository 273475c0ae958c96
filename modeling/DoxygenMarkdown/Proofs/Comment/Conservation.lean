import DoxygenMarkdown.Proofs.Comment.Attaching
import DoxygenMarkdown.Proofs.Comment.Failure
import DoxygenMarkdown.Proofs.Fences.OpenCode
import DoxygenMarkdown.Proofs.Inline.Images
import Mathlib.Data.List.Perm.Basic

/-!
# The words of a comment

A line outside code says its words, all but a bullet, a bare marker or a tag in front (`saidBy`),
and formatting writes them anew (`written`). A line of code is kept as it is (`codeOf`).
**`words_elements`** accounts for all of them: the words in the texts of the elements are those that
the lines say and those of code, less the words that are lost. Each counts as often as it is said.

Words are lost in two places (`lostWords`):

* a line that begins with a bare marker is read as that marker, whatever stands behind it;
* of a line that closes a block of code, only the tag is read.

No word comes in that the comment does not say, except the fences of code and the bullet of an item
that there is no list for, which is written out.

A line is read as the words that it says (`words_readLine`). Wherever they are put, they are added
to the words that are there (`Gains`), so each step of the reader adds those of its line
(`State.gains_step`), and the steps add up (`gains_readLines`).
-/

namespace DoxygenMarkdown

/-- The words of the texts of an element. -/
def Element.words (e : Element) : List Text := e.content?.toList.flatMap Outline.words

namespace Comment

/-- The words of the texts of some elements. -/
def contentWords (es : List Element) : List Text := es.flatMap Element.words

/-! ## What a line says -/

/-- Words as formatting writes them. -/
def written (ws : List Text) : List Text := (Inline.format (Text.unwords ws)).words

/-- Whether a line begins with a marker that stands by itself. -/
def isBareMarker (line : Text) : Bool :=
  match Token.scan line.trim with
  | [⟨.marker, _⟩] => true
  | ⟨.marker, _⟩ :: ⟨.blank, _⟩ :: _ => true
  | _ => false

/-- Whether a line opens or closes a group. -/
def isGroupLine (line : Text) : Bool :=
  match Token.scan line.trim with
  | ⟨.marker, _⟩ :: ⟨.brace, _⟩ :: _ => true
  | _ => false

/-- Whether a line is an item of a list: it is indented and begins with a bullet. -/
def isBulletLine (line : Text) : Bool := line.indentation ≠ 0 && isItem line.trim

/-- Whether a line at the margin begins with a known tag, perhaps with a qualifier. -/
def isTagged (line : Text) : Bool :=
  line.indentation = 0 &&
    match Token.scan line.trim with
    | ⟨.marker, _⟩ :: ⟨.word, word⟩ :: _ =>
      let name : Text := word.takeWhile (· ≠ '[')
      Tag.isKnown name.lower && name.lower ≠ Tag.code && Marker.leads line name
    | _ => false

/-- The words that a line says: all of them but a bullet, a bare marker or a tag in front. A line
that opens or closes a group says nothing. -/
def saidBy (line : Text) : List Text :=
  if isGroupLine line then []
  else if isBareMarker line || isBulletLine line || isTagged line then line.words.tail
  else line.words

/-- The words of a line that are read: none of a line that begins with a bare marker. -/
def keptOf (line : Text) : List Text := if isBareMarker line then [] else written (saidBy line)

/-- A line keeps its words, without the first one if that is a bullet or a tag. -/
theorem keptOf_eq {line : Text} (hgroup : isGroupLine line = false)
    (hbare : isBareMarker line = false) :
    keptOf line =
      written (if isBulletLine line || isTagged line then line.words.tail else line.words) := by
  rw [keptOf, hbare, saidBy, hgroup, hbare, Bool.false_or, if_neg Bool.false_ne_true,
    if_neg Bool.false_ne_true]

theorem isBulletLine_of_margin {line : Text} (h : line.indentation = 0) :
    isBulletLine line = false := by
  rw [isBulletLine, decide_eq_false (not_not_intro h), Bool.false_and]

/-- Words are written as formatting a text writes its words. -/
theorem written_words (t : Text) : written t.words = (Inline.format t).words := by
  rw [written, Inline.format_congr (Text.words_unwords (Text.areWords_words t))]

theorem written_tail (t : Text) :
    written t.words.tail = (Inline.format (Marker.dropFirstWord t)).words := by
  rw [written, Inline.format_dropFirstWord]

theorem written_nil : written [] = [] := by decide

theorem words_leaf (t : Text) : (Outline.leaf t).words = t.words := by
  simp [Outline.words, Outline.leaf, Outline.texts, Outline.listTexts]

/-- Without its bullet, an item says the words behind that. -/
theorem words_drop_bullet {body : Text} (h : isItem body = true) :
    Text.words (body.drop 1) = body.words.tail := by
  have hbullet : ∀ c : Char, isBullet c = true → isBlank c = false := by
    intro c hc
    simp only [isBullet, Bool.or_eq_true, beq_iff_eq] at hc
    rcases hc with (rfl | rfl) | rfl <;> decide
  rcases body with _ | ⟨c, _ | ⟨d, body⟩⟩
  · cases h
  · rw [Text.words_of_forall_not_blank (List.cons_ne_nil _ _)
      (List.forall_mem_singleton.2 (hbullet c h))]
    rfl
  · rw [isItem, Bool.and_eq_true] at h
    have hwords : Text.words ([c] ++ d :: body) = [c] :: Text.words (d :: body) :=
      Text.words_append_of_beginsNoWord (List.cons_ne_nil _ _)
        (List.forall_mem_singleton.2 (hbullet c h.1))
        fun e he => Option.some.inj he ▸ isBlank_of_isIndent h.2
    exact (congrArg List.tail hwords).symm

/-- The words that a line is read as. -/
def Reading.words : Reading → List Text
  | .element e => e.words
  | .indented l => l.text.words

theorem words_readIndented {line : Text} (hgroup : isGroupLine line = false)
    (hbare : isBareMarker line = false) (hindent : line.indentation ≠ 0) :
    (readIndented line).text.words = keptOf line := by
  have htagged : isTagged line = false := by
    rw [isTagged, decide_eq_false hindent, Bool.false_and]
  have hbullet : isBulletLine line = isItem line.trim := by
    rw [isBulletLine, decide_eq_true hindent, Bool.true_and]
  rw [keptOf_eq hgroup hbare, htagged, hbullet, Bool.or_false, readIndented]
  dsimp only
  split
  · next hitem =>
    have hbody : Text.words (Text.trimStart (line.trim.drop 1)) = line.words.tail := by
      rw [Text.words_trimStart, words_drop_bullet hitem, Text.words_trim]
    rw [written, ← hbody, Inline.format_congr (Text.words_unwords (Text.areWords_words _))]
  · rw [written_words, Inline.format_congr (Text.words_trim line)]

theorem words_tagged_leaf (tag : Text) (qualifiers : List Text) (t : Text) :
    Element.words (.tagged tag qualifiers (.leaf t)) = t.words := by
  simp [Element.words, Element.content?, words_leaf]

theorem words_plain_leaf (t : Text) : Element.words (.plain (.leaf t)) = t.words :=
  words_tagged_leaf [] [] t

/-- What a line with a tag at the margin says is in its element. -/
theorem words_readTagged {line word x : Text} {more : List Token} {e : Element}
    (hmargin : line.indentation = 0)
    (hscan : Token.scan line.trim = ⟨.marker, x⟩ :: ⟨.word, word⟩ :: more)
    (h : readTagged line word = .ok e) : e.words = keptOf line := by
  have hgroup : isGroupLine line = false := by rw [isGroupLine, hscan]
  have hbare : isBareMarker line = false := by rw [isBareMarker, hscan]
  rw [keptOf_eq hgroup hbare, isBulletLine_of_margin hmargin, Bool.false_or]
  have hplain : isTagged line = false → (Inline.format line).words =
      written (if isTagged line = true then line.words.tail else line.words) := fun htagged => by
    rw [htagged, if_neg Bool.false_ne_true, written_words]
  by_cases hknown : Tag.isKnown (Text.lower (word.takeWhile (· ≠ '['))) = true ∧
      Text.lower (word.takeWhile (· ≠ '[')) ≠ Tag.code
  · have htagged : isTagged line = Marker.leads line (word.takeWhile (· ≠ '[')) := by
      simp only [isTagged, hmargin, hscan, hknown.1, decide_eq_true hknown.2, decide_true,
        Bool.true_and]
    rw [readTagged_of_known rfl hknown.1 hknown.2] at h
    obtain ⟨qualifiers, -, rfl⟩ := exists_of_map_eq_ok h
    rw [words_tagged_leaf, Marker.dropLeading]
    by_cases hleads : Marker.leads line (word.takeWhile (· ≠ '[')) = true
    · rw [if_pos hleads, if_pos (htagged.trans hleads), written_tail]
    · rw [if_neg hleads, hplain (htagged.trans (Bool.eq_false_iff.2 hleads))]
  · have htagged : isTagged line = false := by
      simp only [isTagged, hmargin, hscan, decide_true, Bool.true_and]
      rcases hk : Tag.isKnown (Text.lower (word.takeWhile (· ≠ '['))) with _ | _
      · simp
      · have hcode : ¬ Text.lower (word.takeWhile (· ≠ '[')) ≠ Tag.code := fun hne =>
          hknown ⟨hk, hne⟩
        rw [decide_eq_false hcode]
        simp
    rw [readTagged_of_unknown rfl hknown] at h
    cases h
    rw [plainLine, words_plain_leaf, hplain htagged]

/-- **A line is read as the words that it says**, unless it begins with a bare marker. -/
theorem words_readLine {line : Text} {r : Reading} (h : readLine line = .ok r) :
    r.words = keptOf line := by
  rw [readLine] at h
  split at h
  · next hblank =>
    cases h
    have hwords : line.words = [] := Text.words_of_allBlank hblank
    rw [keptOf, saidBy, hwords]
    simp only [List.tail_nil, ite_self, written_nil]
    rfl
  rw [readTokens.eq_def] at h
  split at h
  · next hscan =>
    cases h
    rw [keptOf, isBareMarker, hscan]
    rfl
  · next hscan =>
    cases h
    rw [keptOf, isBareMarker, hscan]
    rfl
  · next brace _ hscan =>
    cases h
    rw [keptOf, saidBy, isGroupLine, hscan, if_pos rfl, written_nil, ite_self]
    by_cases hopen : brace = ['{']
    · rw [if_pos hopen]
      rfl
    · rw [if_neg hopen]
      rfl
  · next hone hblank hbrace =>
    have hbare : isBareMarker line = false := by
      rw [isBareMarker]
      split
      · next hscan => exact absurd hscan (hone _)
      · next hscan => exact absurd hscan (hblank _ _ _)
      · rfl
    have hgroup : isGroupLine line = false := by
      rw [isGroupLine]
      split
      · next hscan => exact absurd hscan (hbrace _ _ _)
      · rfl
    split at h
    · next hindent =>
      cases h
      exact words_readIndented hgroup hbare hindent
    · next hmargin =>
      rw [not_not] at hmargin
      split at h
      · next hscan =>
        obtain ⟨e, he, rfl⟩ := exists_of_map_eq_ok h
        exact words_readTagged hmargin hscan he
      · next hword =>
        cases h
        have htagged : isTagged line = false := by
          rw [isTagged, Bool.and_eq_false_iff]
          refine .inr ?_
          split
          · next hscan => exact absurd hscan (hword _ _ _)
          · rfl
        rw [keptOf_eq hgroup hbare, isBulletLine_of_margin hmargin, htagged, Bool.or_false,
          if_neg Bool.false_ne_true, written_words]
        exact words_plain_leaf _

/-- A line is read as an item exactly if it begins with a bullet. -/
theorem isItem_of_readLine {line : Text} {l : IndentedLine}
    (h : readLine line = .ok (.indented l)) : l.isItem = isBulletLine line := by
  obtain ⟨hindent, rfl⟩ := eq_of_readLine_indented h
  rw [isBulletLine, decide_eq_true hindent]
  rfl

/-! ## What a state gains -/

/-- Elements that have the words of others and some more. Of the words that stand for a bullet there
may be as many more as there are bullets. -/
def Gains (es fs : List Element) (ws : List Text) (bullets : Nat) : Prop :=
  ∃ n ≤ bullets, (contentWords fs).Perm (contentWords es ++ ws ++ List.replicate n ['-'])

namespace Gains

variable {es fs gs : List Element} {ws ws' : List Text} {m n : Nat}

theorem refl (es : List Element) : Gains es es [] 0 := ⟨0, Nat.le_refl 0, by simp⟩

theorem mono (h : Gains es fs ws m) (hmn : m ≤ n) : Gains es fs ws n := by
  obtain ⟨k, hk, hperm⟩ := h
  exact ⟨k, Nat.le_trans hk hmn, hperm⟩

/-- What two steps add is added one after the other. -/
theorem trans (h : Gains es fs ws m) (h' : Gains fs gs ws' n) :
    Gains es gs (ws ++ ws') (m + n) := by
  obtain ⟨k, hk, hperm⟩ := h
  obtain ⟨l, hl, hperm'⟩ := h'
  refine ⟨k + l, Nat.add_le_add hk hl, ?_⟩
  rw [List.perm_iff_count] at *
  intro w
  have hw := hperm w
  have hw' := hperm' w
  simp only [List.count_append, List.replicate_add] at *
  omega

end Gains

end Comment

namespace Outline

/-- Words that a change adds to any node are added to the outline. -/
theorem words_modifyEdge {f : Outline → Outline} {ws : List Text}
    (hf : ∀ o, (f o).words.Perm (o.words ++ ws)) (depth : Nat) (o : Outline) :
    (modifyEdge f depth o).words.Perm (o.words ++ ws) := by
  obtain ⟨nodes, p, rfl, hp⟩ := exists_liesAt depth o
  rw [hp, words_within, words_within, List.append_assoc]
  exact (hf p).append_left _

theorem words_addLine (t : Text) (o : Outline) : (o.addLine t).words.Perm (o.words ++ t.words) :=
  words_perm_of_top rfl (Text.words_append_blank (by decide) _ _)

theorem words_startLine (t : Text) (o : Outline) :
    (o.startLine t).words.Perm (o.words ++ t.words) := by
  unfold startLine
  split
  · next hempty => exact words_perm_of_top rfl (by rw [List.isEmpty_iff.1 hempty]; rfl)
  · exact words_addLine t o

theorem words_continueWith (t : Text) (o : Outline) :
    (o.continueWith t).words.Perm (o.words ++ t.words) := by
  obtain ⟨gap, hgap, hcontinue⟩ := exists_gap t o
  rw [hcontinue]
  exact words_perm_of_top rfl (words_append_gap hgap t)

end Outline

namespace Comment

namespace State

variable {s s' : State}

theorem gains_push (s : State) (e : Element) : Gains s.elements (s.push e).elements e.words 0 := by
  refine ⟨0, Nat.le_refl 0, ?_⟩
  rw [List.replicate_zero, List.append_nil]
  exact List.perm_append_comm

/-- What a text of the last element gains is what the elements gain. -/
theorem gains_modifyLast (hs : s.HasText) {f : Outline → Outline} {ws : List Text}
    (hf : ∀ o, (f o).words.Perm (o.words ++ ws)) (depth : Nat) :
    Gains s.elements (s.modifyLast depth f).elements ws 0 := by
  obtain ⟨e, es, o, hes, ho⟩ := hs
  refine ⟨0, Nat.le_refl 0, ?_⟩
  have hmap : (e.mapContent (Outline.modifyEdge f depth)).words =
      (Outline.modifyEdge f depth o).words := by
    cases e <;> cases ho <;> exact List.append_nil _
  have he : e.words = o.words := by
    rw [Element.words, ho]
    exact List.append_nil _
  rw [modifyLast, hes, List.replicate_zero, List.append_nil]
  simp only [contentWords, List.flatMap_cons, hmap, he]
  refine ((Outline.words_modifyEdge hf depth o).append_right _).trans ?_
  rw [List.append_assoc, List.append_assoc]
  exact List.perm_append_comm.append_left _

/-- An indented line adds its words. An item with no text to stand below keeps its dash. -/
theorem gains_takeIndented (s : State) (l : IndentedLine) :
    Gains s.elements (s.takeIndented l).1.elements l.text.words (if l.isItem then 1 else 0) := by
  by_cases h : s.takesLines = true
  · have htext : (s.enter l.indent).HasText := hasText_of_takesLines h
    by_cases hl : l.isItem = true
    · rw [takeIndented_of_item h hl, if_pos hl]
      obtain ⟨n, hn, hperm⟩ := gains_modifyLast htext
        (fun o => .of_eq (Outline.words_addItem l.text o))
        (s.enter l.indent).nesting.depth
      exact ⟨n, Nat.le_succ_of_le hn, hperm⟩
    · rw [takeIndented_of_text h hl, if_neg hl]
      exact gains_modifyLast htext (Outline.words_continueWith l.text) _
  · rw [takeIndented_of_element h]
    by_cases hl : l.isItem = true
    · -- the bullet is written out, and is a word of its own
      rw [if_pos hl, if_pos hl]
      refine ⟨1, Nat.le_refl 1, ?_⟩
      have hwords : Element.words (.plain (.leaf ('-' :: ' ' :: l.text))) =
          ['-'] :: l.text.words := by
        rw [words_plain_leaf]
        exact (Text.words_append_blank (x := ['-']) (by decide) l.text)
      simp only [push, contentWords, List.flatMap_cons, hwords]
      rw [List.perm_iff_count]
      intro w
      simp only [List.count_append, List.count_cons, List.replicate_one, List.cons_append,
        List.count_nil]
      omega
    · rw [if_neg hl, if_neg hl, ← words_plain_leaf l.text]
      exact gains_push s _

/-- A line outside of code adds the words that it keeps. -/
theorem gains_takeLine {line : Text} {depth : Option Nat}
    (h : s.takeLine line = .ok (s', depth)) :
    Gains s.elements s'.elements (keptOf line) (if isBulletLine line then 1 else 0) := by
  rcases hread : readLine line with e | ⟨e | l⟩
  · rw [takeLine_of_error hread] at h
    cases h
  · rw [takeLine_of_element hread] at h
    cases h
    rw [← words_readLine hread]
    exact (gains_push s e).mono (Nat.zero_le _)
  · rw [takeLine_of_indented hread] at h
    cases h
    rw [← words_readLine hread, ← isItem_of_readLine hread]
    exact gains_takeIndented s l

/-- An opened block adds its fence and its language. -/
theorem gains_beginCodeAt {depth : Option Nat} (h : depth ≠ none → s.HasText) (opening : Opening)
    (indent : Nat) :
    Gains s.elements (s.beginCodeAt opening indent depth).elements opening.text.words 0 := by
  cases depth with
  | some depth =>
    exact gains_modifyLast (h (Option.some_ne_none _)) (Outline.words_startLine opening.text) depth
  | none =>
    rw [← words_tagged_leaf Tag.code opening.languages opening.text]
    exact gains_push s _

end State

/-! ## All lines -/

/-- The words that a line of code or a fence puts into the texts: those on the line that opens a
block, those of its lines as they are, and the fence that closes it. -/
def codeOf (inCode : Bool) (raw : Text) : List Text :=
  if inCode then
    if Marker.leads (dropStar raw) Tag.endCode then ["```".toList] else raw.words
  else
    match openCode? (dropStar raw) with
    | none => []
    | some (_, opener) => (openingText opener).words

/-- The words of all code. Code that is open below the last line is closed there. -/
def codeWords : (inCode : Bool) → List Text → List Text
  | inCode, [] => if inCode then ["```".toList] else []
  | inCode, raw :: ls => codeOf inCode raw ++ codeWords (opensBelow inCode raw) ls

theorem words_content (block : CodeBlock) (raw : Text) :
    (block.content raw).words = raw.words := by
  rw [CodeBlock.content]
  split
  · next hblank =>
    have hwords := Text.words_append_of_allBlank hblank (raw.drop block.indent)
    rwa [List.take_append_drop, eq_comm] at hwords
  · exact Text.words_trimStart raw

theorem words_fence : Text.words "```".toList = ["```".toList] := by decide

theorem words_fenceText (language rest : Text) :
    (fenceText language rest).words = Text.words ("```".toList ++ language) ++ rest.words := by
  rw [fenceText]
  split
  · next hempty =>
    rw [List.isEmpty_iff.1 hempty, List.append_nil]
    exact (List.append_nil _).symm
  · exact Text.words_append_blank (by decide) _ _

/-- What stands behind a space is no language, and stays below the fence. -/
theorem exists_words_readOpening (tokens more : List Token) :
    ∃ first, (readOpening (tokens ++ ⟨.blank, [' ']⟩ :: more)).text.words =
      first ++ (Token.concat more).words := by
  have hbehind : ∀ (language : Text) (ts : List Token), ∃ first,
      (fenceText language (Token.concat (ts ++ ⟨.blank, [' ']⟩ :: more)).trim).words =
        first ++ (Token.concat more).words := by
    intro language ts
    refine ⟨Text.words ("```".toList ++ language) ++ (Token.concat ts).words, ?_⟩
    rw [words_fenceText, Text.words_trim, Token.concat, List.flatMap_append, List.append_assoc]
    exact congrArg _ (Text.words_append_blank (by decide) _ _)
  rw [readOpening.eq_def]
  split
  · next word rest htokens =>
    -- the braces and the language stand before the space
    rcases tokens with _ | ⟨a, _ | ⟨b, _ | ⟨c, tokens⟩⟩⟩
    · cases htokens
    · cases htokens
    · cases htokens
    · cases htokens
      exact hbehind _ tokens
  · exact hbehind [] tokens

/-- A tag that opens a block is two tokens or more. -/
theorem exists_scan_of_opensCode {w : Text} (hne : w ≠ []) (hb : ∀ c ∈ w, isBlank c = false)
    (h : opensCode w = true) : ∃ a b tokens, Token.scan w = a :: b :: tokens := by
  rw [opensCode] at h
  split at h
  · next m t hlead =>
    obtain rfl := of_decide_eq_true h
    obtain ⟨rest, hw, -⟩ := Marker.eq_append_of_leading? hlead
    have htrim : w.trim = w := by
      have htrim := Text.trim_unwords (List.cons_ne_nil w [])
        (List.forall_mem_singleton.2 ⟨hne, hb⟩)
      rwa [Text.unwords_singleton] at htrim
    rw [← htrim, hw, List.append_assoc, Token.scan_marker_append m (fun h => by cases h)]
    exact ⟨_, _, _, congrArg _ (Token.scan_eq_cons_word (by decide) _)⟩
  · cases h

/-- **The words behind the tag that opens a block** are in the block as they are. -/
theorem exists_words_openingText {line before opener : Text}
    (h : openCode? line = some (before, opener)) :
    ∃ first, (openingText opener).words = first ++ opener.words.tail := by
  obtain ⟨ws, w, rest, hwords, hopens, -, rfl⟩ := words_of_openCode h
  have hline : Text.AreWords (w :: rest) := fun v hv =>
    Text.areWords_words line v (hwords ▸ List.mem_append_right ws hv)
  obtain ⟨⟨hne, hb⟩, hrest⟩ := List.forall_mem_cons.1 hline
  rw [Text.words_unwords hline, List.tail_cons]
  rcases rest with _ | ⟨v, rest⟩
  · exact ⟨_, (List.append_nil _).symm⟩
  · obtain ⟨a, b, tokens, hscan⟩ := exists_scan_of_opensCode hne hb hopens
    have hbehind := exists_words_readOpening tokens (Token.scan (Text.unwords (v :: rest)))
    rw [Token.concat_scan, Text.words_unwords hrest] at hbehind
    rwa [openingText, Text.unwords_cons_cons, Token.scan_append_space, hscan]

namespace State

variable {s s' : State}

/-- A block that is closed adds its fence. -/
theorem gains_closeCode (hs : s.HasText) (block : CodeBlock) :
    Gains s.elements (s.closeCode block).elements ["```".toList] 0 := by
  rw [← words_fence]
  exact gains_modifyLast hs (Outline.words_addLine _) block.depth

theorem gains_endCode (hs : s.HasText) (block : CodeBlock) :
    Gains s.elements (s.endCode block).elements ["```".toList] 0 := by
  rw [endCode]
  split
  · exact (gains_closeCode hs block).trans (gains_push (s.closeCode block) _)
  · exact gains_closeCode hs block

theorem gains_beginCode {line before opener : Text} (h : s.beginCode line before opener = .ok s') :
    Gains s.elements s'.elements
      ((if before = [] then [] else keptOf (line.take line.indentation ++ before)) ++
        (openingText opener).words)
      (if before = [] then 0
        else if isBulletLine (line.take line.indentation ++ before) then 1 else 0) := by
  obtain ⟨s₁, depth, rfl, ⟨rfl, rfl, rfl⟩ | ⟨rfl, htakes, rfl⟩ | ⟨hw, hl⟩⟩ := beginCode_cases h
  · exact gains_beginCodeAt (fun hnone => absurd rfl hnone) _ _
  · have henter : (s.enter line.indentation).HasText := hasText_of_takesLines htakes
    exact gains_beginCodeAt (fun _ => henter) _ _
  · rw [if_neg hw, if_neg hw]
    exact (gains_takeLine hl).trans (gains_beginCodeAt (hasText_takeLine hl) _ _)

/-- **A line adds the words that it says**, and those of code. -/
theorem gains_step {raw : Text} (hs : s.HoldsCode) (h : s.step raw = .ok s') :
    Gains s.elements s'.elements
      ((prosePart? s.code.isSome raw).toList.flatMap keptOf ++ codeOf s.code.isSome raw)
      ((prosePart? s.code.isSome raw).toList.countP isBulletLine) := by
  cases stepsTo_of_step h with
  | line hc ho _ hl =>
    simpa [prosePart?, prose?, codeOf, hc, ho, List.countP_cons] using gains_takeLine hl
  | opens hc before opener ho hb =>
    have hgains := gains_beginCode hb
    by_cases hw : before = []
    · simpa [prosePart?, prose?, codeOf, hc, ho, hw] using hgains
    · simpa [prosePart?, prose?, codeOf, hc, ho, hw, List.countP_cons] using hgains
  | closes block hc hend hs' =>
    have htext : s.HasText := hs (by rw [hc]; exact Option.some_ne_none _)
    simpa [prosePart?, codeOf, hc, hend, hs'] using gains_endCode htext block
  | code block hc hend hs' =>
    have htext : s.HasText := hs (by rw [hc]; exact Option.some_ne_none _)
    have hadd := gains_modifyLast htext (Outline.words_addLine (block.content raw)) block.depth
    rw [words_content] at hadd
    simpa [prosePart?, codeOf, hc, hend, hs', addCode] using hadd

theorem gains_closed (hs : s.HoldsCode) :
    Gains s.elements s.closed.elements (if s.code.isSome then ["```".toList] else []) 0 := by
  rcases hc : s.code with _ | block
  · rw [closed_of_code_eq_none hc]
    exact .refl _
  · rw [closed_of_code hc]
    exact gains_closeCode (hs (by rw [hc]; exact Option.some_ne_none _)) block

end State

/-- All lines together add what they keep, the code as it is written, and a fence for each end of
a block; and some dashes, at most one for each bullet. -/
theorem gains_readLines {ls : List Text} {s s' : State} (hs : s.HoldsCode)
    (h : readLines s ls = .ok s') :
    Gains s.elements s'.closed.elements
      ((proseParts s.code.isSome ls).flatMap keptOf ++ codeWords s.code.isSome ls)
      ((proseParts s.code.isSome ls).countP isBulletLine) := by
  induction ls generalizing s with
  | nil =>
    cases h
    exact State.gains_closed hs
  | cons raw ls ih =>
    obtain ⟨s₁, hstep, h⟩ := exists_of_readLines_cons h
    have hrest := ih (State.holdsCode_step hs hstep) h
    rw [State.isSome_code_step hstep] at hrest
    obtain ⟨n, hn, hperm⟩ := (State.gains_step hs hstep).trans hrest
    refine ⟨n, ?_, hperm.trans ?_⟩
    · rwa [proseParts, List.countP_append]
    · rw [proseParts, codeWords, List.flatMap_append, List.perm_iff_count]
      intro w
      simp only [List.count_append]
      omega

/-! ## Words that are lost -/

/-- The lines that close a block of code. -/
def closingLines : (inCode : Bool) → List Text → List Text
  | _, [] => []
  | inCode, raw :: ls =>
    (if inCode && Marker.leads (dropStar raw) Tag.endCode then [dropStar raw] else []) ++
      closingLines (opensBelow inCode raw) ls

/-- The words that lines say outside code, as formatting writes them: those of each line, and those
behind a tag that closes a block. -/
def saidWords (ls : List Text) : List Text :=
  (proseParts false ls).flatMap (fun l => written (saidBy l)) ++
    (closingLines false ls).flatMap fun l => written l.words.tail

/-- The words that are said behind a bare marker, or behind a tag that closes a block. -/
def lostWords (ls : List Text) : List Text :=
  ((proseParts false ls).filter isBareMarker).flatMap (fun l => written (saidBy l)) ++
    (closingLines false ls).flatMap fun l => written l.words.tail

/-- What is kept of the lines and what their bare markers lose are all of their words. -/
theorem kept_append_lost (parts : List Text) :
    (parts.flatMap keptOf ++ (parts.filter isBareMarker).flatMap fun l => written (saidBy l)).Perm
      (parts.flatMap fun l => written (saidBy l)) := by
  induction parts with
  | nil => exact .refl _
  | cons l parts ih =>
    rw [List.perm_iff_count] at *
    intro w
    have hw := ih w
    cases hbare : isBareMarker l with
    | true =>
      rw [List.filter_cons_of_pos hbare]
      simp only [List.flatMap_cons, List.count_append, keptOf, hbare, if_true,
        List.count_nil] at *
      omega
    | false =>
      rw [List.filter_cons_of_neg (by simp [hbare])]
      simp only [List.flatMap_cons, List.count_append, keptOf, hbare, Bool.false_eq_true,
        if_false] at *
      omega

theorem areWords_saidBy (line : Text) : Text.AreWords (saidBy line) := by
  have hwords := Text.areWords_words line
  unfold saidBy
  split
  · exact fun w hw => absurd hw List.not_mem_nil
  split
  · exact fun w hw => hwords w (List.mem_of_mem_tail hw)
  · exact hwords

theorem rewrites_written {ws : List Text} (h : Text.AreWords ws) :
    Inline.Rewrites ws (written ws) := by
  have hformat := Inline.rewrites_format (Text.unwords ws)
  rwa [Text.words_unwords h] at hformat

/-- **No word is lost but behind a bare marker and behind the tag that closes a block.** The texts
of the elements have exactly the other words that the lines say, those of code, and a few bullets
that are written out. What a line says is written word by word, and only a marker for markup is not
written. What stands behind the tag that opens a block is kept as it is. -/
theorem words_elements {t : Text} {es : List Element} (h : elements t = .ok es) :
    (∃ bullets ≤ (proseParts false (sourceLines t)).countP isBulletLine,
      (contentWords es ++ lostWords (sourceLines t)).Perm
        (saidWords (sourceLines t) ++ codeWords false (sourceLines t) ++
          List.replicate bullets ['-'])) ∧
    (∀ line, Inline.Rewrites (saidBy line) (written (saidBy line)) ∧
      Inline.Rewrites line.words.tail (written line.words.tail)) ∧
    ∀ line before opener, openCode? line = some (before, opener) →
      ∃ first, (openingText opener).words = first ++ opener.words.tail := by
  refine ⟨?_, fun line => ⟨rewrites_written (areWords_saidBy line), ?_⟩,
    fun line before opener => exists_words_openingText⟩
  swap
  · exact rewrites_written fun w hw => Text.areWords_words line w (List.mem_of_mem_tail hw)
  rw [elements_eq] at h
  obtain ⟨s, hs, rfl⟩ := exists_of_map_eq_ok h
  obtain ⟨n, hn, hperm⟩ := gains_readLines State.holdsCode_init hs
  refine ⟨n, hn, ?_⟩
  have hfinish : (contentWords s.finish).Perm (contentWords s.closed.elements) := by
    rw [State.finish_eq, contentWords, List.flatMap_append]
    have hseparator : List.flatMap Element.words [Element.separator] = [] := rfl
    rw [hseparator, List.append_nil]
    exact (List.reverse_perm _).flatMap_right _
  have hlost := kept_append_lost (proseParts false (sourceLines t))
  rw [List.perm_iff_count] at *
  intro w
  have hw := hperm w
  have hw' := hfinish w
  have hw'' := hlost w
  have hinit : contentWords (State.elements {}) = [] := rfl
  have hout : (State.code {}).isSome = false := rfl
  simp only [hinit, hout, saidWords, lostWords, List.count_append, List.count_nil] at *
  omega

/-- A qualifier, markup, a list, a bare marker with words behind it, and a block that opens below
text and closes in front of a word. -/
theorem words_elements_with_losses :
    let lines := ["* @param[in] x @b y", "  - z", "@ 5 V", "a @code f", "  g @b h",
      "@endcode w"].map String.toList
    let t := Text.unlines lines
    ∃ es, elements t = .ok es ∧ lostWords (sourceLines t) = ["5", "V", "w"].map String.toList ∧
      ∃ bullets ≤ 1, (contentWords es ++ ["5", "V", "w"].map String.toList).Perm
        (["x", "**y**", "z", "5", "V", "a", "w", "```", "f", "g", "@b", "h", "```"].map
          String.toList ++ List.replicate bullets ['-']) := by
  intro lines t
  have helements : elements t = .ok [.tagged "param".toList ["in".toList]
      ⟨"x **y**".toList, [.leaf "z".toList]⟩, .bareMarker,
      .plain (.leaf "a\n```\nf\n  g @b h\n```".toList), .separator] := by decide +kernel
  have hlost : lostWords (sourceLines t) = ["5", "V", "w"].map String.toList := by decide +kernel
  have hsaid : saidWords (sourceLines t) ++ codeWords false (sourceLines t) =
      ["x", "**y**", "z", "5", "V", "a", "w", "```", "f", "g", "@b", "h", "```"].map
        String.toList := by decide +kernel
  have hbullets : (proseParts false (sourceLines t)).countP isBulletLine = 1 := by decide +kernel
  obtain ⟨⟨bullets, hle, hperm⟩, -, -⟩ := words_elements helements
  rw [hlost, hsaid] at hperm
  exact ⟨_, helements, hlost, bullets, hbullets ▸ hle, hperm⟩

/-- The words behind a bare marker are in no element, nor is the word behind the tag that closes a
block. -/
theorem elements_lose_words :
    elements "@ 5 V".toList = .ok [.bareMarker, .separator] ∧
    saidWords (sourceLines "@ 5 V".toList) = ["5", "V"].map String.toList ∧
    elements "@code\nx\n@endcode y".toList =
      .ok [.tagged Tag.code [] (.leaf "```\nx\n```".toList), .tagged Tag.endCode [] (.leaf []),
        .separator] ∧
    saidWords (sourceLines "@code\nx\n@endcode y".toList) = ["y".toList] := by
  decide +kernel

end Comment

end DoxygenMarkdown

import DoxygenMarkdown.Proofs.Fences.Reading
import DoxygenMarkdown.Proofs.Fences.Written
import DoxygenMarkdown.Proofs.Text.Words
import Mathlib.Algebra.GroupWithZero.Nat
import Mathlib.Data.List.TakeDrop

/-!
# How many fences a line holds

A fence is three backticks in a row, and fences are counted from the left, without overlap
(`fenceCount`). A character that is no backtick cuts a text into parts that are counted by
themselves, so the fences of a text are those of its lines.

By their number, a line of text holds an even number of fences, a line of code holds none, and the
lines that open and close a block begin with the only one that they hold (`pairedLines`). What is
written has these at the beginning of a line but for the marks of the lists and quotes that the line
is in (`IsContainerPrefix`, `writtenPairedLines`).

A comment without a fence opens its blocks well, and its code holds no fence (`keepsCode_of_count`).
-/

namespace DoxygenMarkdown

open Markdown

/-- The number of fences in a text, from the left and without overlap. -/
def fenceCount : Text → Nat
  | '`' :: '`' :: '`' :: t => fenceCount t + 1
  | _ :: t => fenceCount t
  | [] => 0

variable {c : Char} {t u : Text}

@[simp] theorem fenceCount_nil : fenceCount [] = 0 := rfl

@[simp] theorem fenceCount_fence_append (t : Text) :
    fenceCount (fence ++ t) = fenceCount t + 1 := rfl

theorem fenceCount_cons (hc : c ≠ '`') (t : Text) : fenceCount (c :: t) = fenceCount t := by
  rw [fenceCount]
  rintro u rfl
  exact absurd rfl hc

/-- A character that is no backtick is a boundary that no fence crosses. -/
theorem fenceCount_append_cons (hc : c ≠ '`') (t u : Text) :
    fenceCount (t ++ c :: u) = fenceCount t + fenceCount u := by
  fun_induction fenceCount t with
  | case1 t ih =>
    rw [List.cons_append, List.cons_append, List.cons_append, fenceCount, ih]
    omega
  | case2 d t hd ih =>
    have hnone : ∀ s, d = '`' → t ++ c :: u = '`' :: '`' :: s → False := by
      -- a fence that begins here would have to reach the boundary
      rintro s rfl hs
      rcases t with _ | ⟨e, _ | ⟨f, t⟩⟩
      · exact hc (List.cons.inj hs).1
      · exact hc (List.cons.inj (List.cons.inj hs).2).1
      · obtain ⟨he, hs⟩ := List.cons.inj hs
        exact hd t rfl (by rw [he, (List.cons.inj hs).1])
    rw [List.cons_append, fenceCount.eq_2 _ _ hnone, ih]
  | case3 => rw [List.nil_append, fenceCount_cons hc, Nat.zero_add]

theorem fenceCount_append_of_notMem (h : '`' ∉ t) (u : Text) :
    fenceCount (t ++ u) = fenceCount u := by
  induction t with
  | nil => rfl
  | cons c t ih =>
    rw [List.mem_cons, not_or] at h
    rw [List.cons_append, fenceCount_cons (Ne.symm h.1), ih h.2]

theorem fenceCount_append_of_notMem_right (t : Text) (h : '`' ∉ u) :
    fenceCount (t ++ u) = fenceCount t := by
  rcases u with _ | ⟨c, u⟩
  · rw [List.append_nil]
  · rw [List.mem_cons, not_or] at h
    have hnone := fenceCount_append_of_notMem h.2 []
    rw [List.append_nil] at hnone
    rw [fenceCount_append_cons (Ne.symm h.1), hnone]
    rfl

/-- The fences of the lines of a text. -/
theorem fenceCount_unlines (ls : List Text) :
    fenceCount (Text.unlines ls) = (ls.map fenceCount).sum := by
  induction ls with
  | nil => rfl
  | cons l ls ih =>
    rcases ls with _ | ⟨k, ls⟩
    · simp
    · rw [Text.unlines_cons (List.cons_ne_nil k ls), fenceCount_append_cons (by decide), ih]
      rfl

theorem fenceCount_unwords (ws : List Text) :
    fenceCount (Text.unwords ws) = (ws.map fenceCount).sum := by
  induction ws with
  | nil => rfl
  | cons w ws ih =>
    rcases ws with _ | ⟨v, ws⟩
    · simp
    · rw [Text.unwords_cons_cons, fenceCount_append_cons (by decide), ih]
      rfl

/-- A text without fences is one in which no fence is found. -/
theorem fenceCount_eq_zero_iff : fenceCount t = 0 ↔ ¬ fence <:+: t := by
  fun_induction fenceCount t with
  | case1 t ih =>
    have hfence : fence <:+: '`' :: '`' :: '`' :: t := (List.prefix_append fence t).isInfix
    simp [hfence]
  | case2 d t hd ih =>
    have hprefix : ¬ fence <+: d :: t := by
      rintro ⟨u, hu⟩
      have hu : '`' :: '`' :: '`' :: u = d :: t := hu
      exact hd u (List.cons.inj hu).1.symm (List.cons.inj hu).2.symm
    rw [ih, List.infix_cons_iff, not_or, and_iff_right hprefix]
  | case3 => simp [fence]

theorem fenceCount_eq_zero_mono (h : t <:+: u) (hu : fenceCount u = 0) : fenceCount t = 0 :=
  fenceCount_eq_zero_iff.2 fun ht => fenceCount_eq_zero_iff.1 hu (ht.trans h)

theorem fenceCount_lines (t : Text) : (t.lines.map fenceCount).sum = fenceCount t := by
  rw [← fenceCount_unlines, Text.unlines_lines]

/-! ## Kinds of lines by their number of fences -/

/-- The kinds of lines that a comment is made of, told apart by the number of their fences. -/
def pairedLines : LineKinds where
  text l := fenceCount l % 2 = 0
  opening l := ∃ r, l = fence ++ r ∧ fenceCount r = 0
  code l := fenceCount l = 0
  closing l := l = fence

/-- The marks of lists and quotes, and the blanks, that a line may have before what it says. -/
inductive IsContainerPrefix : Text → Prop
  | nil : IsContainerPrefix []
  | space {p : Text} (h : IsContainerPrefix p) : IsContainerPrefix (' ' :: p)
  | dash {p : Text} (h : IsContainerPrefix p) : IsContainerPrefix ('-' :: ' ' :: p)
  | star {p : Text} (h : IsContainerPrefix p) : IsContainerPrefix ('*' :: ' ' :: p)
  | quote {p : Text} (h : IsContainerPrefix p) : IsContainerPrefix ('>' :: ' ' :: p)

/-- The same, with the fence that opens or closes a block behind the marks of lists and quotes. -/
def writtenPairedLines : LineKinds where
  text l := fenceCount l % 2 = 0
  opening l := ∃ p r, IsContainerPrefix p ∧ l = p ++ (fence ++ r) ∧ fenceCount r = 0
  code l := fenceCount l = 0
  closing l := ∃ p, IsContainerPrefix p ∧ l = p ++ fence

namespace IsContainerPrefix

variable {p q : Text}

theorem append (hp : IsContainerPrefix p) (hq : IsContainerPrefix q) :
    IsContainerPrefix (p ++ q) := by
  induction hp with
  | nil => exact hq
  | space _ ih => exact .space ih
  | dash _ ih => exact .dash ih
  | star _ ih => exact .star ih
  | quote _ ih => exact .quote ih

theorem replicate (n : Nat) : IsContainerPrefix (List.replicate n ' ') := by
  induction n with
  | zero => exact .nil
  | succ n ih => exact .space ih

theorem backtick_notMem (hp : IsContainerPrefix p) : '`' ∉ p := by
  induction hp <;> simp_all

theorem fenceCount_append (hp : IsContainerPrefix p) (l : Text) :
    fenceCount (p ++ l) = fenceCount l := fenceCount_append_of_notMem hp.backtick_notMem l

/-- Behind a mark, a line stays what it is. -/
theorem step (hp : IsContainerPrefix p) {a b : Bool} {l : Text}
    (h : writtenPairedLines.Step a l b) : writtenPairedLines.Step a (p ++ l) b := by
  have hcount := hp.fenceCount_append l
  refine h.imp (fun h => ?_) ?_ (fun h => ?_) ?_
  · exact (congrArg (· % 2) hcount).trans h
  · rintro ⟨q, r, hq, rfl, hr⟩
    exact ⟨p ++ q, r, hp.append hq, (List.append_assoc p q _).symm, hr⟩
  · exact hcount.trans h
  · rintro ⟨q, hq, rfl⟩
    exact ⟨p ++ q, hp.append hq, (List.append_assoc p q _).symm⟩

end IsContainerPrefix

theorem step_writtenPairedLines {a b : Bool} {l : Text} (h : pairedLines.Step a l b) :
    writtenPairedLines.Step a l b := by
  refine h.imp id ?_ id fun hl => ⟨[], .nil, hl⟩
  rintro ⟨r, rfl, hr⟩
  exact ⟨[], r, .nil, rfl, hr⟩

theorem pairedLines_ofReader : pairedLines.OfReader where
  closing_iff := Iff.rfl
  not_text_fence := by
    show ¬ fenceCount fence % 2 = 0
    decide
  text_nil := rfl
  text_dash := rfl
  text_join {x y} hx hy := by
    show fenceCount (x ++ ' ' :: y) % 2 = 0
    have hx : fenceCount x % 2 = 0 := hx
    have hy : fenceCount y % 2 = 0 := hy
    rw [fenceCount_append_cons (by decide)]
    omega

/-- Bullets do not change how many fences a line holds. -/
theorem pairedLines_writtenAs : WrittenAs pairedLines writtenPairedLines fun _ => True where
  indent n h := (IsContainerPrefix.replicate n).step (step_writtenPairedLines h)
  bullet n _ h := by
    have hdash := (IsContainerPrefix.dash .nil).step (step_writtenPairedLines h)
    exact (IsContainerPrefix.replicate n).step hdash

/-- Going over lines outside of code and back to there, one comes by an even number of fences. -/
theorem sum_fenceCount {a b : Bool} {ls : List Text} (h : writtenPairedLines.Run a ls b) :
    (ls.map fenceCount).sum % 2 = if a = b then 0 else 1 := by
  induction h with
  | nil a => simp
  | @cons a b c l ls hl _ ih =>
    have hsum : ((l :: ls).map fenceCount).sum = fenceCount l + (ls.map fenceCount).sum := rfl
    rw [hsum]
    cases hl with
    | text h =>
      have h : fenceCount l % 2 = 0 := h
      omega
    | code h =>
      have h : fenceCount l = 0 := h
      omega
    | opening h =>
      obtain ⟨p, r, hp, rfl, hr⟩ := h
      have hl : fenceCount (p ++ (fence ++ r)) = 1 := by
        rw [hp.fenceCount_append, fenceCount_fence_append, hr]
      cases c <;> simp at ih ⊢ <;> omega
    | closing h =>
      obtain ⟨p, hp, rfl⟩ := h
      have hl : fenceCount (p ++ fence) = 1 := by
        rw [hp.fenceCount_append]
        rfl
      cases c <;> simp at ih ⊢ <;> omega

/-! ## Comments without a fence -/

theorem opensBlock_fenceText {language rest : Text} (hl : fenceCount language = 0)
    (hlb : '\n' ∉ language) (hr : fenceCount rest = 0) (hrb : '\n' ∉ rest) :
    OpensBlock pairedLines (Comment.fenceText language rest) := by
  have hfirst : '\n' ∉ fence ++ language := by
    rw [List.mem_append, not_or]
    exact ⟨by decide, hlb⟩
  rw [Comment.fenceText]
  split
  · refine ⟨fence ++ language, [], ?_, ⟨language, rfl, hl⟩, fun l hl => absurd hl List.not_mem_nil⟩
    rw [List.append_nil]
    exact Text.lines_of_notMem hfirst
  · refine ⟨fence ++ language, [rest], ?_, ⟨language, rfl, hl⟩, List.forall_mem_singleton.2 hr⟩
    have hlines := Text.lines_append_break (fence ++ language) rest
    rwa [Text.lines_of_notMem hfirst, Text.lines_of_notMem hrb] at hlines

theorem concat_drop_suffix (n : Nat) (tokens : List Token) :
    Token.concat (tokens.drop n) <:+ Token.concat tokens := by
  have hsplit : Token.concat tokens =
      Token.concat (tokens.take n) ++ Token.concat (tokens.drop n) := by
    rw [Token.concat, Token.concat, Token.concat, ← List.flatMap_append, List.take_append_drop]
  rw [hsplit]
  exact List.suffix_append _ _

/-- What stands behind a tag without fences opens a block well. -/
theorem opensBlock_openingText {opener : Text} (h : fenceCount opener = 0) (hb : '\n' ∉ opener) :
    OpensBlock pairedLines (Comment.openingText opener) := by
  have htokens : Token.concat ((Token.scan opener).drop 2) <:+ opener := by
    have hsuffix := concat_drop_suffix 2 (Token.scan opener)
    rwa [Token.concat_scan] at hsuffix
  have hpiece : ∀ t, t <:+: Token.concat ((Token.scan opener).drop 2) →
      fenceCount t = 0 ∧ '\n' ∉ t := by
    intro t ht
    have ht := ht.trans htokens.isInfix
    exact ⟨fenceCount_eq_zero_mono ht h, fun hc => hb (ht.subset hc)⟩
  rw [Comment.openingText, Comment.readOpening.eq_def]
  split
  · next word tokens htokens =>
    rw [htokens] at hpiece
    have hlanguage : word.dropWhile (· == '.') <:+:
        Token.concat (⟨.brace, ['{']⟩ :: ⟨.word, word⟩ :: ⟨.brace, ['}']⟩ :: tokens) := by
      refine (List.dropWhile_suffix _).isInfix.trans ?_
      exact ⟨['{'], '}' :: Token.concat tokens, by simp [Token.concat]⟩
    have hrest : (Token.concat tokens).trim <:+:
        Token.concat (⟨.brace, ['{']⟩ :: ⟨.word, word⟩ :: ⟨.brace, ['}']⟩ :: tokens) := by
      refine (Text.infix_trim _).trans ?_
      exact ⟨'{' :: word ++ ['}'], [], by simp [Token.concat]⟩
    obtain ⟨hl, hlb⟩ := hpiece _ hlanguage
    obtain ⟨hr, hrb⟩ := hpiece _ hrest
    exact opensBlock_fenceText hl hlb hr hrb
  · obtain ⟨hr, hrb⟩ := hpiece _ (Text.infix_trim _)
    exact opensBlock_fenceText rfl (by decide) hr hrb

theorem dropStar_suffix (raw : Text) : Comment.dropStar raw <:+ raw := by
  unfold Comment.dropStar
  split
  · exact ⟨['*', ' '], rfl⟩
  · split
    · exact List.nil_suffix
    · exact List.suffix_refl raw

/-- A line without a fence opens blocks well, and is code without a fence. -/
theorem keepsCode_of_count {raw : Text} (h : fenceCount raw = 0) (hb : '\n' ∉ raw)
    (s : Comment.State) : s.KeepsCode pairedLines raw := by
  unfold Comment.State.KeepsCode
  split
  · next block _ =>
    intro _ l hl
    have hcontent : block.content raw <:+ raw := by
      unfold Comment.CodeBlock.content
      split
      · exact List.drop_suffix _ _
      · exact List.dropWhile_suffix _
    rw [Text.lines_of_notMem fun hc => hb (hcontent.subset hc)] at hl
    obtain rfl := List.mem_singleton.1 hl
    exact fenceCount_eq_zero_mono hcontent.isInfix h
  · rintro ⟨before, opener⟩ hopens
    obtain ⟨ws, w, rest, hwords, -, -, rfl⟩ := Comment.words_of_openCode hopens
    have hmem : ∀ v ∈ w :: rest, v ∈ (Comment.dropStar raw).words := fun v hv =>
      hwords ▸ List.mem_append_right ws hv
    have hwords : Text.AreWords (w :: rest) := fun v hv => Text.areWords_words _ v (hmem v hv)
    refine opensBlock_openingText ?_ (Text.break_notMem_unwords hwords)
    rw [fenceCount_unwords]
    refine List.sum_eq_zero_iff_forall_eq_nat.2 fun n hn => ?_
    obtain ⟨v, hv, rfl⟩ := List.mem_map.1 hn
    have hline : v <:+: raw :=
      (Text.infix_of_mem_words (hmem v hv)).trans (dropStar_suffix raw).isInfix
    exact fenceCount_eq_zero_mono hline h

/-- Dropping carriage returns makes no fence. -/
theorem fenceCount_dropReturns (t : Text) : fenceCount t.dropReturns = fenceCount t := by
  have hrun : ∀ n, fenceCount (List.replicate n '`' ++ t.dropReturns) =
      fenceCount (List.replicate n '`' ++ t) := by
    -- the backticks before a text may make a fence with those that it begins with
    fun_induction Text.dropReturns t with
    | case1 => exact fun n => rfl
    | case2 t ih =>
      intro n
      rw [fenceCount_append_cons (by decide), fenceCount_append_cons (by decide),
        fenceCount_cons (by decide)]
      exact congrArg (_ + ·) (ih 0)
    | case3 c t _ ih =>
      intro n
      by_cases hc : c = '`'
      · subst hc
        have hsucc : ∀ u : Text, List.replicate n '`' ++ '`' :: u =
            List.replicate (n + 1) '`' ++ u := fun u => by
          rw [List.replicate_succ', List.append_assoc, List.singleton_append]
        rw [hsucc, hsucc]
        exact ih (n + 1)
      · rw [fenceCount_append_cons hc, fenceCount_append_cons hc]
        exact congrArg (_ + ·) (ih 0)
  exact hrun 0

theorem fenceCount_of_mem_lines {l : Text} (h : fenceCount t = 0) (hl : l ∈ t.lines) :
    fenceCount l = 0 := by
  rw [← fenceCount_lines] at h
  exact List.sum_eq_zero_iff_forall_eq_nat.1 h _ (List.mem_map_of_mem hl)

namespace Comment

/-- Outside code, each line of a comment says texts with fences in pairs, line by line. -/
def ProseIsPaired (t : Text) : Prop :=
  Along (fun s raw => s.KeepsProse pairedLines raw) {} (sourceLines t)

/-- In a comment without fences, code is what it should be. -/
theorem keepsFences_of_count {t : Text} (ht : fenceCount t = 0) (h : ProseIsPaired t) :
    KeepsFences pairedLines (sourceLines t) := by
  refine h.and_of_forall fun l hl s => keepsCode_of_count ?_ (Text.break_notMem_of_mem_lines hl) s
  exact fenceCount_of_mem_lines ((fenceCount_dropReturns t).trans ht) hl

end Comment

end DoxygenMarkdown
